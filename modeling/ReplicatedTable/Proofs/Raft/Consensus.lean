import ReplicatedTable.Proofs.Raft.Chronicle
import ReplicatedTable.Proofs.Raft.Electorate

/-!
# Agreement in a closed group

A group is closed if all its replicas know the same voters, and these are the replicas themselves. Then any
two majorities have a replica in common, and the state of the group fits a chronicle (`Sound`): leaders hold
the books of their terms, all logs are traced, nobody has applied more than what is decided, and a majority
holds what is decided. For every term that had a leader a majority has come to this term (`Presided`).

`campaign_agrees` and `submit_agrees` show that elections and writes keep this, with the chronicle going on;
what else can happen to a closed group changes no log and nothing that is applied. A decided entry that a
replica holds is never lost again (`Agrees.keeps`).
-/
namespace ReplicatedTable.Raft.Network

open Replica Chronicle Log

variable {σ : Type}

/-! ## Quorums -/

/-- More than half of the numbers below a bound. -/
structure Quorum (size : Nat) (js : List Nat) : Prop where
  nodup : js.Nodup
  below : ∀ j ∈ js, j < size
  half : size < 2 * js.length

theorem Quorum.meet {size : Nat} {js ks : List Nat} (hj : Quorum size js) (hk : Quorum size ks) :
    ∃ j ∈ js, j ∈ ks := by
  by_contra hno
  have hdisjoint : js.Disjoint ks := fun j h h' => hno ⟨j, h, h'⟩
  have hle : (js ++ ks).length ≤ (List.range size).length :=
    (hj.nodup.append hk.nodup hdisjoint).length_le_of_subset fun j h =>
      List.mem_range.mpr ((List.mem_append.mp h).elim (hj.below j) (hk.below j))
  have := hj.half
  have := hk.half
  rw [List.length_append, List.length_range] at hle
  omega

/-! ## Closed groups -/

/-- All replicas know these voters, which are the replicas. -/
structure Grouped (voters : Voters) (n : Network σ) : Prop where
  knows : ∀ (j : Nat) (r : Replica σ), n.replicas[j]? = some r →
    r.voters = voters ∧ voters[r.id]? = some r.address
  size : voters.size = n.replicas.length
  distinct : ∀ id id' a : String, voters[id]? = some a → voters[id']? = some a → id = id'

variable {voters : Voters} {n : Network σ} {i : Nat} {r : Replica σ}

theorem Grouped.nodup_electorate (h : n.Grouped voters) (hw : n.Wired) (hr : n.replica? i = some r) :
    (i :: n.reachable r).Nodup := by
  have hat := (replica?_eq_some.mp hr).1
  refine List.nodup_cons.mpr ⟨hw.not_mem_reachable hat rfl, hw.nodup_reachable ?_⟩
  rw [(h.knows i r hat).1]
  exact h.distinct

/-- Peers that make a majority of the voters with a replica are a quorum with it. -/
theorem Grouped.quorum (h : n.Grouped voters) (hw : n.Wired) (hr : n.replica? i = some r)
    {js : List Nat} (hjs : js.Sublist (n.reachable r)) (hmaj : majority r.voters ≤ js.length + 1) :
    Quorum n.replicas.length (i :: js) where
  nodup := (h.nodup_electorate hw hr).sublist (hjs.cons_cons i)
  below j hj := by
    rcases List.mem_cons.mp hj with rfl | hj
    · exact (List.getElem?_eq_some_iff.mp (replica?_eq_some.mp hr).1).1
    · obtain ⟨x, id, hx, -⟩ := hw.peer (hjs.subset hj)
      exact (List.getElem?_eq_some_iff.mp (replica?_eq_some.mp hx).1).1
  half := by
    have hsize := h.size
    rw [(h.knows i r (replica?_eq_some.mp hr).1).1, majority] at hmaj
    rw [List.length_cons]
    omega

theorem Grouped.put (h : n.Grouped voters) (hr : n.replicas[i]? = some r) {r' : Replica σ}
    (hid : r'.id = r.id) (ha : r'.address = r.address) (hv : r'.voters = r.voters) :
    (n.put i r').Grouped voters where
  knows j x hx := by
    rcases put_getElem?_cases r' hx with ⟨-, rfl⟩ | ⟨-, hx⟩
    · rw [hid, ha, hv]
      exact h.knows i r hr
    · exact h.knows j x hx
  size := by rw [length_put, h.size]
  distinct := h.distinct

/-! ## Replicas in a chronicle -/

/-- What the chronicle says of a replica. -/
structure Fits (g : Chronicle) (i : Nat) (r : Replica σ) : Prop where
  /-- A leader was elected at its term, has kept the book, and takes itself for the leader. -/
  leads : r.leader = true →
    g.leader r.term = some i ∧ r.log = g.book r.term ∧ r.leaderAddress = some r.address
  traced : g.Traced r.log
  bound : r.applied ≤ r.log.length
  front : r.log.take r.applied <+: g.decided

/-- A leader of the latest term. -/
structure Heads (g : Chronicle) (leader : Replica σ) : Prop where
  elected : g.Elected leader.term
  latest : ∀ t, g.Elected t → t ≤ leader.term
  book : leader.log = g.book leader.term
  bound : leader.applied ≤ leader.log.length
  front : leader.log.take leader.applied <+: g.decided

/-- A replica keeps the entries of a log that it has. -/
def Keeps (decided : Log) (r r' : Replica σ) : Prop :=
  ∀ log : Log, log <+: decided → log <+: r.log → log <+: r'.log

variable {g g' : Chronicle}

theorem Fits.applied_le (h : Fits g i r) : r.applied ≤ g.decided.length := by
  have := h.front.length_le
  have := h.bound
  rw [List.length_take] at *
  omega

theorem Heads.decided (hg : g.Coherent) {leader : Replica σ} (h : Heads g leader) :
    g.decided <+: leader.log := by
  rw [h.book]
  refine hg.complete _ h.elected ?_
  by_cases hne : g.decided = []
  · rw [hne]; exact Nat.zero_le _
  · exact h.latest _ (hg.decided.prefix_book hne).1

/-- Replicas that do not lead at a term whose book was written fit the chronicle as it goes on. -/
theorem Fits.extends (h : Fits g i r) (hext : g.Extends g')
    (hbook : r.leader = true → g'.book r.term = g.book r.term) : Fits g' i r where
  leads hl := by
    obtain ⟨hlead, hlog, ha⟩ := h.leads hl
    have helected := elected_of_leader hlead
    exact ⟨(hext.leader _ helected).trans hlead, hlog.trans (hbook hl).symm, ha⟩
  traced := h.traced.extends hext
  bound := h.bound
  front := h.front.trans hext.decided

/-- A replica that changes neither its log nor what is applied. -/
theorem Fits.of_log (h : Fits g i r) {r' : Replica σ} (hlog : r'.log = r.log)
    (happ : r'.applied = r.applied) (hl : r'.leader = true → r.leader = true ∧ r'.term = r.term ∧
      r'.leaderAddress = r.leaderAddress ∧ r'.address = r.address) : Fits g i r' where
  leads hl' := by
    obtain ⟨h1, h2, h3, h4⟩ := hl hl'
    rw [hlog, h2, h3, h4]
    exact h.leads h1
  traced := hlog ▸ h.traced
  bound := by rw [hlog, happ]; exact h.bound
  front := by rw [hlog, happ]; exact h.front

/-! ## Groups in a chronicle -/

/-- The state of a closed group fits a chronicle. -/
structure Sound (voters : Voters) (g : Chronicle) (n : Network σ) : Prop where
  grouped : n.Grouped voters
  coherent : g.Coherent
  fits : ∀ (j : Nat) (r : Replica σ), n.replicas[j]? = some r → Fits g j r
  holders : ∃ js, Quorum n.replicas.length js ∧
    ∀ j ∈ js, ∃ r : Replica σ, n.replicas[j]? = some r ∧ g.decided <+: r.log

/-- A group goes on, and so does its chronicle. -/
structure Agrees (voters : Voters) (g : Chronicle) (n : Network σ) (g' : Chronicle)
    (m : Network σ) : Prop where
  sound : m.Sound voters g'
  going : g.Extends g'
  keeps : ∀ (j : Nat) (r : Replica σ), n.replicas[j]? = some r →
    ∃ r', m.replicas[j]? = some r' ∧ r'.address = r.address ∧ Keeps g.decided r r'

/-- A majority has come to every term that had a leader. -/
def Presided (g : Chronicle) (n : Network σ) : Prop :=
  ∀ t, g.Elected t → ∃ js, Quorum n.replicas.length js ∧ n.Reached t js

theorem Agrees.refl (h : n.Sound voters g) : n.Agrees voters g g n :=
  ⟨h, .refl g, fun _ r hr => ⟨r, hr, rfl, fun _ _ hlog => hlog⟩⟩

theorem Agrees.trans {g'' : Chronicle} {m k : Network σ} (h : n.Agrees voters g g' m)
    (h' : m.Agrees voters g' g'' k) : n.Agrees voters g g'' k where
  sound := h'.sound
  going := h.going.trans h'.going
  keeps j r hr := by
    obtain ⟨x, hx, ha, hk⟩ := h.keeps j r hr
    obtain ⟨y, hy, ha', hk'⟩ := h'.keeps j x hx
    exact ⟨y, hy, ha'.trans ha, fun log hd hlog => hk' log (hd.trans h.going.decided) (hk log hd hlog)⟩

/-- What is said of a group does not depend on addresses that are free or cut off. -/
theorem Agrees.of_replicas {m k : Network σ} (h : n.Agrees voters g g' m)
    (e : k.replicas = m.replicas) : n.Agrees voters g g' k where
  sound := ⟨⟨by rw [e]; exact h.sound.grouped.knows, by rw [e]; exact h.sound.grouped.size,
    h.sound.grouped.distinct⟩, h.sound.coherent, by rw [e]; exact h.sound.fits,
    by rw [e]; exact h.sound.holders⟩
  going := h.going
  keeps := by rw [e]; exact h.keeps

/-- One replica changes and keeps what is decided, while the chronicle goes on without the books of other
leaders. -/
theorem Sound.put_extends (h : n.Sound voters g) (hr : n.replicas[i]? = some r) {r' : Replica σ}
    (hext : g.Extends g') (hg : g'.Coherent) (hdec : g'.decided = g.decided)
    (hbooks : ∀ (j : Nat) (x : Replica σ), j ≠ i → n.replicas[j]? = some x → x.leader = true →
      g'.book x.term = g.book x.term)
    (hfits : Fits g' i r') (hkeeps : Keeps g.decided r r') (hid : r'.id = r.id)
    (ha : r'.address = r.address) (hv : r'.voters = r.voters) :
    n.Agrees voters g g' (n.put i r') where
  sound := by
    refine ⟨h.grouped.put hr hid ha hv, hg, fun j x hx => ?_, ?_⟩
    · rcases put_getElem?_cases r' hx with ⟨rfl, rfl⟩ | ⟨hji, hx⟩
      · exact hfits
      · exact (h.fits j x hx).extends hext (hbooks j x hji hx)
    · obtain ⟨js, hq, hjs⟩ := h.holders
      refine ⟨js, by rw [length_put]; exact hq, fun j hj => ?_⟩
      obtain ⟨x, hx, hpre⟩ := hjs j hj
      rw [hdec]
      by_cases hij : i = j
      · subst hij
        rw [hr] at hx
        cases hx
        exact ⟨r', put_getElem?_self r' hr, hkeeps _ List.prefix_rfl hpre⟩
      · exact ⟨x, (put_getElem?_ne n i r' hij).trans hx, hpre⟩
  going := hext
  keeps j x hx := by
    by_cases hij : i = j
    · subst hij
      rw [hr] at hx
      cases hx
      exact ⟨r', put_getElem?_self r' hr, ha, hkeeps⟩
    · exact ⟨x, (put_getElem?_ne n i r' hij).trans hx, rfl, fun _ _ hlog => hlog⟩

theorem Sound.put (h : n.Sound voters g) (hr : n.replicas[i]? = some r) {r' : Replica σ}
    (hfits : Fits g i r') (hkeeps : Keeps g.decided r r') (hid : r'.id = r.id)
    (ha : r'.address = r.address) (hv : r'.voters = r.voters) :
    n.Agrees voters g g (n.put i r') :=
  h.put_extends hr (.refl g) h.coherent rfl (fun _ _ _ _ _ => rfl) hfits hkeeps hid ha hv

/-- A replica that gives up leadership, or changes nothing that the chronicle looks at. -/
theorem Sound.put_quiet (h : n.Sound voters g) (hr : n.replicas[i]? = some r) {r' : Replica σ}
    (hlog : r'.log = r.log) (happ : r'.applied = r.applied) (hid : r'.id = r.id)
    (ha : r'.address = r.address) (hv : r'.voters = r.voters)
    (hl : r'.leader = true → r.leader = true ∧ r'.term = r.term ∧
      r'.leaderAddress = r.leaderAddress) : n.Agrees voters g g (n.put i r') := by
  refine h.put hr ((h.fits i r hr).of_log hlog happ fun hl' => ?_) (fun _ _ hpre => ?_) hid ha hv
  · exact ⟨(hl hl').1, (hl hl').2.1, (hl hl').2.2, ha⟩
  · rw [hlog]
    exact hpre

variable [StateMachine σ]

/-- A peer brought in line with the leader of the latest term. -/
theorem Fits.receive (hg : g.Coherent) {f leader : Replica σ} (hf : Fits g i f)
    (hlead : Heads g leader) (hne : leader.address ≠ f.address) :
    Fits g i (f.receive leader leader.term).1 ∧
      Keeps g.decided f (f.receive leader leader.term).1 ∧
      ((f.receive leader leader.term).2.isOk = true →
        leader.log <+: (f.receive leader leader.term).1.log) := by
  have hfollow : (f.follow leader.term leader.address).leader = true → False := by
    intro hl
    obtain ⟨hfl, ha | ha⟩ := follow_leader _ hl
    · exact hne ha
    · rw [(hf.leads hfl).2.2] at ha
      exact hne (Option.some.inj ha).symm
  have hsame : Fits g i (f.follow leader.term leader.address) :=
    hf.of_log (follow_log ..) (follow_applied ..) fun hl => (hfollow hl).elim
  have hkeep : Keeps g.decided f (f.follow leader.term leader.address) := fun log _ h => by
    rw [follow_log]
    exact h
  have hc := receive_receipt f leader leader.term hf.bound
  generalize (f.receive leader leader.term).1 = r, (f.receive leader leader.term).2 = ans at hc ⊢
  cases hc with
  | down hs => exact ⟨hf, fun _ _ h => h, fun h => by cases h⟩
  | stale hs ht => exact ⟨hf, fun _ _ h => h, fun h => by cases h⟩
  | halted hs ht hh => exact ⟨hsame, hkeep, fun h => by cases h⟩
  | conflict hs ht hh hc hl => exact ⟨hsame, hkeep, fun h => by cases h⟩
  | taken hs ht hh hc hr =>
    have htraced : g.Traced leader.log := hlead.book ▸ hg.traced _ hlead.elected
    obtain ⟨hmerge, hpre⟩ := hf.traced.merge htraced
    have hlog : r.log = merge f.log leader.log := by rw [hr, applyUpTo_log, taking]
    have happ : r.applied ≤ max f.applied (min leader.applied (merge f.log leader.log).length) := by
      have := applyUpTo_applied_le (f.taking leader leader.term)
        (min leader.applied (merge f.log leader.log).length)
      rw [← hr] at this
      simp only [taking, follow_applied] at this
      omega
    have hdec : g.decided <+: r.log := hlog ▸ (hlead.decided hg).trans hpre
    have hle : r.applied ≤ g.decided.length := by
      have h1 := hf.applied_le
      have h2 := hlead.front.length_le
      have h3 := hlead.bound
      rw [List.length_take] at h2
      omega
    refine ⟨⟨fun hl => ?_, hlog ▸ hmerge, Nat.le_trans hle hdec.length_le, ?_⟩,
      fun log h _ => h.trans hdec, fun _ => hlog ▸ hpre⟩
    · rw [hr, applyUpTo_leader] at hl
      exact (hfollow hl).elim
    · obtain ⟨rest, hrest⟩ := hdec
      rw [← hrest, List.take_append_of_le_length hle]
      exact List.take_prefix ..

/-- The leader of the latest term brings peers in line. -/
theorem Sound.receive (h : n.Sound voters g) {leader : Replica σ} (hlead : Heads g leader)
    (js : List Nat) (hjs : ∀ j ∈ js, ∀ f, n.replicas[j]? = some f → leader.address ≠ f.address) :
    n.Agrees voters g g (n.mapAt (fun f => (f.receive leader leader.term).1) js) := by
  refine mapAt_induction (P := n.Agrees voters g g) (fun m j f hj hm hf => ?_) (.refl h)
  have hat := (replica?_eq_some.mp hf).1
  have hlt : j < n.replicas.length := by
    rw [← h.grouped.size, hm.sound.grouped.size]
    exact (List.getElem?_eq_some_iff.mp hat).1
  obtain ⟨x, hx, ha, -⟩ := hm.keeps j _ (List.getElem?_eq_getElem hlt)
  rw [hat] at hx
  cases hx
  have hne : leader.address ≠ f.address := ha ▸ hjs j hj _ (List.getElem?_eq_getElem hlt)
  obtain ⟨hfits, hkeeps, -⟩ := (hm.sound.fits j f hat).receive hm.sound.coherent hlead hne
  exact hm.trans (hm.sound.put hat hfits hkeeps (receive_id ..) (receive_address ..)
    (receive_voters ..))

omit [StateMachine σ] in
/-- Peers within reach are at other addresses, whatever the group has gone through. -/
theorem Agrees.peers {m : Network σ} (h : n.Agrees voters g g' m) (hw : n.Wired) {j : Nat}
    (hj : j ∈ n.reachable r) {f : Replica σ} (hf : m.replicas[j]? = some f) :
    r.address ≠ f.address := by
  obtain ⟨x, id, hx, -, -, hne⟩ := hw.peer hj
  obtain ⟨y, hy, ha, -⟩ := h.keeps j x (replica?_eq_some.mp hx).1
  rw [hf] at hy
  cases hy
  rw [ha]
  exact hne.symm

theorem Presided.step (hp : n.Presided g) (hs : n.Sound voters g) (hw : n.Wired) {op : Op σ}
    (hag : n.Agrees voters g g' (n.step op).network)
    (hnew : ∀ t, g'.Elected t → g.Elected t ∨
      ∃ js, Quorum n.replicas.length js ∧ (n.step op).network.Reached t js) :
    (n.step op).network.Presided g' := by
  intro t ht
  rw [← hag.sound.grouped.size, hs.grouped.size]
  rcases hnew t ht with ht | h
  · obtain ⟨js, hq, hjs⟩ := hp t ht
    exact ⟨js, hq, hjs.step hw op⟩
  · exact h

/-! ## Elections -/

omit [StateMachine σ] in
/-- Whoever can be elected holds what is decided: among its voters there is one that does. -/
theorem Sound.candidate (h : n.Sound voters g) (hw : n.Wired) (hr : n.replica? i = some r)
    (he : n.Electable r) : g.decided <+: r.log := by
  have hat := (replica?_eq_some.mp hr).1
  obtain ⟨js, hq, hjs⟩ := h.holders
  obtain ⟨j, hj, hjv⟩ := hq.meet (h.grouped.quorum hw hr List.filter_sublist he.votes)
  obtain ⟨x, hx, hdec⟩ := hjs j hj
  rcases List.mem_cons.mp hjv with rfl | hjv
  · rw [hat] at hx
    cases hx
    exact hdec
  · obtain ⟨-, hgrant⟩ := List.mem_filter.mp hjv
    unfold grants at hgrant
    cases hpeer : n.replica? j with
    | none => simp [hpeer] at hgrant
    | some y =>
      rw [(replica?_eq_some.mp hpeer).1] at hx
      cases hx
      rw [hpeer] at hgrant
      exact upToDate_decided h.coherent (h.fits j x (replica?_eq_some.mp hpeer).1).traced
        (h.fits i r hat).traced hdec hgrant

omit [StateMachine σ] in
/-- No term that had a leader is as late as the one at which a candidate would lead. -/
theorem Presided.lt_nextTerm (hp : n.Presided g) (h : n.Sound voters g) (hw : n.Wired)
    (hr : n.replica? i = some r) (he : n.Electable r) {t : Nat} (ht : g.Elected t) :
    t < n.nextTerm r := by
  obtain ⟨js, hq, hjs⟩ := hp t ht
  have hvotes := he.votes
  have hlen := List.length_filter_le (n.grants r) (n.reachable r)
  obtain ⟨j, hj, hjv⟩ := hq.meet (h.grouped.quorum hw hr (List.Sublist.refl _) (by omega))
  obtain ⟨x, hx, hle⟩ := hjs j hj
  exact Nat.lt_of_le_of_lt hle (Network.lt_nextTerm hw hr hjv hx)

omit [StateMachine σ] in
theorem Fits.elect (h : Fits g i r) {term : Nat} (hnew : ∀ t, g.Elected t → t < term) :
    Fits (g.elect term i r.log) i (r.elected term) where
  leads _ := by
    rw [elected_term, elected_log, elected_leaderAddress, elected_address]
    exact ⟨elect_leader, elect_book.symm, rfl⟩
  traced := by
    rw [elected_log]
    exact h.traced.extends (elect_extends hnew)
  bound := by simpa using h.bound
  front := by
    rw [elected_log, elected_applied]
    exact h.front

omit [StateMachine σ] in
/-- The candidate takes over, with its log as the book of the new term. -/
theorem Sound.elect (h : n.Sound voters g) (hp : n.Presided g) (hw : n.Wired)
    (hr : n.replica? i = some r) (he : n.Electable r) :
    n.Agrees voters g (g.elect (n.nextTerm r) i r.log) (n.put i (r.elected (n.nextTerm r))) ∧
      Heads (g.elect (n.nextTerm r) i r.log) (r.elected (n.nextTerm r)) := by
  have hat := (replica?_eq_some.mp hr).1
  have hfits := h.fits i r hat
  have hnew : ∀ t, g.Elected t → t < n.nextTerm r := fun t => hp.lt_nextTerm h hw hr he
  have hext : g.Extends (g.elect (n.nextTerm r) i r.log) := elect_extends hnew
  have helected : (g.elect (n.nextTerm r) i r.log).Elected (n.nextTerm r) :=
    elected_of_leader elect_leader
  have hbooks : ∀ (j : Nat) (x : Replica σ), j ≠ i → n.replicas[j]? = some x → x.leader = true →
      (g.elect (n.nextTerm r) i r.log).book x.term = g.book x.term := by
    intro j x _ hx hl
    have hlead := ((h.fits j x hx).leads hl).1
    exact elect_book_ne (Nat.ne_of_lt (hnew _ (elected_of_leader hlead)))
  have hwinner := hfits.elect hnew
  refine ⟨h.put_extends hat hext (h.coherent.elect hnew hfits.traced (h.candidate hw hr he)) rfl
    hbooks hwinner (fun log _ hpre => by simpa using hpre) (elected_id ..) (elected_address ..)
    (elected_voters ..), ?_, fun t ht => ?_, ?_, hwinner.bound, hwinner.front⟩
  · rw [elected_term]
    exact helected
  · rw [elected_term]
    rcases elected_elect ht with rfl | ht
    · exact Nat.le_refl _
    · exact Nat.le_of_lt (hnew t ht)
  · rw [elected_term, elected_log]
    exact elect_book.symm

theorem campaign_agrees (h : n.Sound voters g) (hp : n.Presided g) (hw : n.Wired) (i : Nat) :
    ∃ g', n.Agrees voters g g' (n.campaign i).network ∧ (n.campaign i).network.Presided g' ∧
      ∀ term, (n.campaign i).answer = .ok term →
        ∃ r, (n.campaign i).network.replicas[i]? = some r ∧ g.decided <+: r.log := by
  have hstep : (n.campaign i).network = (n.step (.campaign i)).network := rfl
  have hc := campaign_election hw i
  rw [hstep] at hc ⊢
  have hpres : ∀ {g' : Chronicle}, n.Agrees voters g g' (n.step (.campaign i)).network →
      _ → (n.step (.campaign i)).network.Presided g' := fun hag => hp.step h hw hag
  generalize (n.step (.campaign i)).network = m, (n.campaign i).answer = ans at hc hpres ⊢
  cases hc with
  | refused e =>
    have hag := Agrees.refl h
    exact ⟨g, hag, hpres hag fun t ht => Or.inl ht, fun term hans => by cases hans⟩
  | @won r hr he =>
    obtain ⟨hput, hheads⟩ := h.elect hp hw hr he
    have hat := (replica?_eq_some.mp hr).1
    have hnot : i ∉ n.reachable r := hw.not_mem_reachable hat rfl
    have hsync := hput.sound.receive hheads (n.reachable r) fun j hj f hf => by
      rw [elected_address]
      exact hput.peers hw hj hf
    rw [elected_term] at hsync
    have hag := hput.trans hsync
    refine ⟨_, hag, hpres hag fun t ht => ?_, fun term _ => ?_⟩
    · rcases elected_elect ht with rfl | ht
      · refine Or.inr ⟨_, h.grouped.quorum hw hr (List.Sublist.refl _) ?_, reached_elected hw hr⟩
        have := List.length_filter_le (n.grants r) (n.reachable r)
        have := he.votes
        omega
      · exact Or.inl ht
    · rw [mapAt_getElem?_of_not_mem hnot]
      refine ⟨_, put_getElem?_self _ hat, ?_⟩
      rw [elected_log]
      exact h.candidate hw hr he

/-! ## Writes -/

variable {data : List UInt8}

omit [StateMachine σ] in
/-- Whoever can append an entry leads at the latest term. -/
theorem Presided.latest (hp : n.Presided g) (h : n.Sound voters g) (hw : n.Wired)
    (hr : n.replica? i = some r) (hwr : n.Writable r) {t : Nat} (ht : g.Elected t) : t ≤ r.term := by
  obtain ⟨js, hq, hjs⟩ := hp t ht
  obtain ⟨j, hj, hjr⟩ := hq.meet (h.grouped.quorum hw hr (List.Sublist.refl _) hwr.quorum)
  obtain ⟨x, hx, hle⟩ := hjs j hj
  rcases List.mem_cons.mp hjr with rfl | hjr
  · rw [(replica?_eq_some.mp hr).1] at hx
    cases hx
    exact hle
  · obtain ⟨y, id, hy, -⟩ := hw.peer hjr
    rw [(replica?_eq_some.mp hy).1] at hx
    cases hx
    exact Nat.le_trans hle (hwr.newest j hjr x hy)

omit [StateMachine σ] in
theorem Fits.push (h : Fits g i r) (hl : r.leader = true) (data : List UInt8) :
    Fits (g.write ⟨r.term, data⟩) i (r.pushed data) := by
  obtain ⟨hlead, hlog, ha⟩ := h.leads hl
  have helected := elected_of_leader hlead
  have hbook : (g.write ⟨r.term, data⟩).book r.term = r.log ++ [⟨r.term, data⟩] := by
    rw [hlog]
    exact write_book_self (e := ⟨r.term, data⟩)
  refine ⟨fun _ => ⟨hlead, hbook.symm, ha⟩, ?_, ?_, ?_⟩
  · exact (h.traced.extends write_extends).append (e := ⟨r.term, data⟩) helected
      (prefix_of_eq hbook.symm)
  · have := h.bound
    simp only [pushed, List.length_append]
    omega
  · show (r.log ++ [_]).take r.applied <+: g.decided
    rw [List.take_append_of_le_length h.bound]
    exact h.front

omit [StateMachine σ] in
/-- The leader of the latest term appends an entry, in its log and in the book. -/
theorem Sound.push (h : n.Sound voters g) (hp : n.Presided g) (hw : n.Wired)
    (hr : n.replica? i = some r) (hwr : n.Writable r) (data : List UInt8) :
    n.Agrees voters g (g.write ⟨r.term, data⟩) (n.put i (r.pushed data)) ∧
      Heads (g.write ⟨r.term, data⟩) (r.pushed data) := by
  have hat := (replica?_eq_some.mp hr).1
  have hfits := h.fits i r hat
  obtain ⟨hlead, -, -⟩ := hfits.leads hwr.leads
  have helected := elected_of_leader hlead
  have hpushed := hfits.push hwr.leads data
  have hbooks : ∀ (j : Nat) (x : Replica σ), j ≠ i → n.replicas[j]? = some x → x.leader = true →
      (g.write ⟨r.term, data⟩).book x.term = g.book x.term := by
    intro j x hji hx hl
    refine write_book_ne fun hterm => hji ?_
    have hxlead := ((h.fits j x hx).leads hl).1
    rw [hterm, hlead] at hxlead
    exact (Option.some.inj hxlead).symm
  refine ⟨h.put_extends hat write_extends (h.coherent.write helected) rfl hbooks hpushed
    (fun log _ hpre => hpre.trans (List.prefix_append ..)) rfl rfl rfl, helected, ?_,
    (hpushed.leads hwr.leads).2.1, hpushed.bound, hpushed.front⟩
  exact fun t ht => hp.latest h hw hr hwr ht

/-- Peers that take an entry hold the leader's log. -/
theorem Sound.takers (h : n.Sound voters g) (hw : n.Wired) (hr : n.replica? i = some r)
    (hput : (n.put i (r.pushed data)).Sound voters g') (hheads : Heads g' (r.pushed data)) :
    ∀ j ∈ i :: n.takers i r data, ∃ x, (n.spread i r data).replicas[j]? = some x ∧
      (r.pushed data).log <+: x.log := by
  have hnodup := h.grouped.nodup_electorate hw hr
  obtain ⟨hnot, hnodup⟩ := List.nodup_cons.mp hnodup
  intro j hj
  rcases List.mem_cons.mp hj with rfl | hj
  · exact ⟨_, spread_self hw hr data, List.prefix_rfl⟩
  · obtain ⟨hreach, hack⟩ := List.mem_filter.mp hj
    have hij : i ≠ j := fun e => hnot (e ▸ hreach)
    obtain ⟨x, id, hx, -, -, hne⟩ := hw.peer hreach
    have hx' : (n.put i (r.pushed data)).replica? j = some x := (replica?_put_ne _ hij).trans hx
    unfold acknowledges at hack
    rw [hx'] at hack
    refine ⟨_, mapAt_getElem?_of_mem hnodup hreach hx', ?_⟩
    exact ((hput.fits j x (replica?_eq_some.mp hx').1).receive hput.coherent hheads hne.symm).2.2 hack

omit [StateMachine σ] in
/-- What a majority holds of the latest leader is decided. -/
theorem Sound.decide (h : n.Sound voters g) {leader : Replica σ} (hheads : Heads g leader)
    (hlast : lastTerm leader.log = leader.term) {js : List Nat}
    (hq : Quorum n.replicas.length js)
    (hjs : ∀ j ∈ js, ∃ x, n.replicas[j]? = some x ∧ leader.log <+: x.log) :
    n.Agrees voters g (g.decide leader.term) n := by
  have hext : g.Extends (g.decide leader.term) :=
    decide_extends (hheads.book ▸ hheads.decided h.coherent)
  refine ⟨⟨h.grouped, h.coherent.decide hheads.elected hheads.latest (hheads.book ▸ hlast),
    fun j x hx => (h.fits j x hx).extends hext fun _ => rfl, js, hq, fun j hj => ?_⟩, hext,
    fun j x hx => ⟨x, hx, rfl, fun _ _ hpre => hpre⟩⟩
  obtain ⟨x, hx, hpre⟩ := hjs j hj
  refine ⟨x, hx, ?_⟩
  show g.book leader.term <+: x.log
  rw [← hheads.book]
  exact hpre

/-- The leader applies what is decided. -/
theorem Sound.apply (h : n.Sound voters g) {leader : Replica σ} (hat : n.replicas[i]? = some leader)
    (hheads : Heads g leader) (hdec : leader.log = g.decided) (index : Nat) :
    n.Agrees voters g g (n.put i (leader.applyUpTo index).1) ∧
      Heads g (leader.applyUpTo index).1 := by
  have hfits := h.fits i leader hat
  have hbound : (leader.applyUpTo index).1.applied ≤ (leader.applyUpTo index).1.log.length := by
    have := applyUpTo_applied_le leader index
    have := hfits.bound
    rw [applyUpTo_log]
    omega
  have hfront : (leader.applyUpTo index).1.log.take (leader.applyUpTo index).1.applied <+:
      g.decided := by
    rw [applyUpTo_log, hdec]
    exact List.take_prefix ..
  refine ⟨h.put hat ⟨fun hl => ?_, ?_, hbound, hfront⟩ (fun log _ hpre => ?_) (applyUpTo_id ..)
    (applyUpTo_address ..) (applyUpTo_voters ..), ?_, ?_, ?_, hbound, hfront⟩
  · rw [applyUpTo_leader] at hl
    rw [applyUpTo_term, applyUpTo_log, applyUpTo_leaderAddress, applyUpTo_address]
    exact hfits.leads hl
  · rw [applyUpTo_log]
    exact hfits.traced
  · rw [applyUpTo_log]
    exact hpre
  · rw [applyUpTo_term]
    exact hheads.elected
  · rw [applyUpTo_term]
    exact hheads.latest
  · rw [applyUpTo_log, applyUpTo_term]
    exact hheads.book

/-- The entry reaches the peers, and is decided if a majority takes it. -/
theorem Sound.spread (h : n.Sound voters g) (hp : n.Presided g) (hw : n.Wired)
    (hr : n.replica? i = some r) (hwr : n.Writable r) (data : List UInt8) :
    n.Agrees voters g (g.write ⟨r.term, data⟩) (n.spread i r data) ∧
      (majority r.voters ≤ (n.takers i r data).length + 1 →
        n.Agrees voters g ((g.write ⟨r.term, data⟩).decide r.term) (n.spread i r data) ∧
        Heads ((g.write ⟨r.term, data⟩).decide r.term) (r.pushed data)) := by
  obtain ⟨hput, hheads⟩ := h.push hp hw hr hwr data
  have hsync : (n.put i (r.pushed data)).Agrees voters (g.write ⟨r.term, data⟩)
      (g.write ⟨r.term, data⟩) (n.spread i r data) :=
    hput.sound.receive hheads _ fun j hj f hf => hput.peers hw hj hf
  refine ⟨hput.trans hsync, fun hmaj => ?_⟩
  have hlast : lastTerm (r.pushed data).log = r.term := lastTerm_append ..
  have hquorum := h.grouped.quorum hw hr List.filter_sublist hmaj
  rw [← h.grouped.size, hsync.sound.grouped.size] at hquorum
  have hdecide := hsync.sound.decide hheads hlast hquorum (h.takers hw hr hput.sound hheads)
  refine ⟨(hput.trans hsync).trans hdecide, hheads.elected, hheads.latest, hheads.book,
    hheads.bound, hheads.front.trans hdecide.going.decided⟩

/-- What a majority takes, the leader applies, and its peers hear of it. -/
theorem Sound.commit (h : n.Sound voters g) (hp : n.Presided g) (hw : n.Wired)
    (hr : n.replica? i = some r) (hwr : n.Writable r) {data : List UInt8} (index : Nat)
    (hmaj : majority r.voters ≤ (n.takers i r data).length + 1) :
    n.Agrees voters g ((g.write ⟨r.term, data⟩).decide r.term)
        ((n.spread i r data).put i ((r.pushed data).applyUpTo index).1) ∧
      n.Agrees voters g ((g.write ⟨r.term, data⟩).decide r.term)
        (((n.spread i r data).put i ((r.pushed data).applyUpTo index).1).mapAt
          (fun f => (f.receive ((r.pushed data).applyUpTo index).1 r.term).1) (n.reachable r)) ∧
      ((g.write ⟨r.term, data⟩).decide r.term).decided = r.log ++ [⟨r.term, data⟩] := by
  obtain ⟨hag, hheads⟩ := (h.spread hp hw hr hwr data).2 hmaj
  obtain ⟨happ, hheads'⟩ := hag.sound.apply (spread_self hw hr data) hheads hheads.book index
  have hsync := happ.sound.receive hheads' (n.reachable r) fun j hj f hf => by
    rw [applyUpTo_address]
    exact (hag.trans happ).peers hw hj hf
  rw [applyUpTo_term] at hsync
  exact ⟨hag.trans happ, (hag.trans happ).trans hsync, hheads.book.symm⟩

omit [StateMachine σ] in
/-- Whoever can append an entry holds what is decided. -/
theorem Presided.writer (hp : n.Presided g) (h : n.Sound voters g) (hw : n.Wired)
    (hr : n.replica? i = some r) (hwr : n.Writable r) : g.decided <+: r.log := by
  have hfits := h.fits i r (replica?_eq_some.mp hr).1
  obtain ⟨hlead, hlog, -⟩ := hfits.leads hwr.leads
  have hself : Heads g r := ⟨elected_of_leader hlead,
    fun t ht => hp.latest h hw hr hwr ht, hlog, hfits.bound, hfits.front⟩
  exact hself.decided h.coherent

theorem submit_agrees (h : n.Sound voters g) (hp : n.Presided g) (hw : n.Wired) (i : Nat)
    (data : List UInt8) :
    ∃ g', n.Agrees voters g g' (n.submit i data).network ∧ (n.submit i data).network.Presided g' ∧
      ∀ index, (n.submit i data).answer = .ok index → ∃ r, n.replicas[i]? = some r ∧
        g.decided <+: r.log ∧ index = r.log.length + 1 ∧
        g'.decided = r.log ++ [⟨r.term, data⟩] := by
  have hstep : (n.submit i data).network = (n.step (.submit i data)).network := rfl
  have hc := submit_write hw i data
  rw [hstep] at hc ⊢
  have hpres : ∀ {g' : Chronicle}, n.Agrees voters g g' (n.step (.submit i data)).network →
      (∀ t, g'.Elected t → g.Elected t) → (n.step (.submit i data)).network.Presided g' :=
    fun hag hold => hp.step h hw hag fun t ht => Or.inl (hold t ht)
  generalize (n.step (.submit i data)).network = m, (n.submit i data).answer = ans at hc hpres ⊢
  have hnodup : ∀ {r : Replica σ}, n.replica? i = some r → (n.reachable r).Nodup := fun hr =>
    (List.nodup_cons.mp (h.grouped.nodup_electorate hw hr)).2
  cases hc with
  | refused e =>
    exact ⟨g, .refl h, hpres (.refl h) fun t ht => ht, fun index hans => by cases hans⟩
  | @conceded r newer hr hl hn hp =>
    have hag : n.Agrees voters g g (n.put i (r.deposed newer)) :=
      h.put_quiet (replica?_eq_some.mp hr).1 (setLeader_log ..) (setLeader_applied ..)
        (setLeader_id ..) (setLeader_address ..) (setLeader_voters ..) fun hl => by
          simp [deposed] at hl
    exact ⟨g, hag, hpres hag fun t ht => ht, fun index hans => by cases hans⟩
  | unacknowledged hr hwr ha =>
    have hag := (h.spread hp hw hr hwr data).1
    exact ⟨_, hag, hpres hag fun t ht => ht, fun index hans => by cases hans⟩
  | @failed r r' e hr hwr ha hf =>
    obtain ⟨hag, -, -⟩ := h.commit hp hw hr hwr (r.pushed data).log.length (ha (hnodup hr))
    rw [hf] at hag
    exact ⟨_, hag, hpres hag fun t ht => ht, fun index hans => by cases hans⟩
  | @committed r r' hr hwr ha hc =>
    obtain ⟨-, hag, hnew⟩ := h.commit hp hw hr hwr (r.pushed data).log.length (ha (hnodup hr))
    rw [hc] at hag
    refine ⟨_, hag, hpres hag fun t ht => ht, fun index hans =>
      ⟨r, (replica?_eq_some.mp hr).1, hp.writer h hw hr hwr, ?_, hnew⟩⟩
    cases hans
    simp [pushed]

/-! ## A group that is left to itself -/

omit [StateMachine σ] in
/-- Nobody comes to a group that is closed. -/
def Op.Works : Op σ → Prop
  | .register .. | .bootstrap _ | .addVoter .. => False
  | _ => True

instance : (op : Op σ) → Decidable op.Works
  | .register .. | .bootstrap _ | .addVoter .. => .isFalse id
  | .drop _ | .isolate _ | .heal _ | .campaign _ | .stepDown _ | .shutdown _ | .submit .. =>
    .isTrue trivial

/-- Whatever happens to a closed group, it goes on, and so does its chronicle. -/
theorem step_agrees (h : n.Sound voters g) (hp : n.Presided g) (hw : n.Wired) {op : Op σ}
    (hop : op.Works) :
    ∃ g', n.Agrees voters g g' (n.step op).network ∧ (n.step op).network.Presided g' := by
  have hquiet : ∀ {m : Network σ}, n.Agrees voters g g m → (n.step op).network.replicas = m.replicas →
      ∃ g', n.Agrees voters g g' (n.step op).network ∧ (n.step op).network.Presided g' := by
    intro m hag e
    exact ⟨g, hag.of_replicas e, hp.step h hw (hag.of_replicas e) fun t ht => Or.inl ht⟩
  cases op with
  | campaign i =>
    obtain ⟨g', hag, hpres, -⟩ := campaign_agrees h hp hw i
    exact ⟨g', hag, hpres⟩
  | submit i data =>
    obtain ⟨g', hag, hpres, -⟩ := submit_agrees h hp hw i data
    exact ⟨g', hag, hpres⟩
  | isolate address => exact hquiet (.refl h) rfl
  | heal address => exact hquiet (.refl h) rfl
  | drop i =>
    have hstep : (n.step (.drop i)).network = n.drop i := rfl
    rcases drop_cases n i with e | ⟨r, hr, e⟩
    · exact hquiet (.refl h) (by rw [hstep, e])
    · have hag : n.Agrees voters g g (n.put i { r with dropped := true }) :=
        h.put_quiet (replica?_eq_some.mp hr).1 rfl rfl rfl rfl rfl fun hl => ⟨hl, rfl, rfl⟩
      exact hquiet hag (by rw [hstep, e])
  | stepDown i =>
    have hstep : (n.step (.stepDown i)).network = (n.stepDown i).network := rfl
    rcases stepDown_cases n i with e | ⟨r, hr, e⟩
    · exact hquiet (.refl h) (by rw [hstep, e])
    · have hag : n.Agrees voters g g (n.put i (r.setLeader false)) :=
        h.put_quiet (replica?_eq_some.mp hr).1 (setLeader_log ..) (setLeader_applied ..)
          (setLeader_id ..) (setLeader_address ..) (setLeader_voters ..) fun hl => by simp at hl
      exact hquiet hag (by rw [hstep, e])
  | shutdown i =>
    have hstep : (n.step (.shutdown i)).network = (n.shutdown i).network := rfl
    rcases shutdown_cases n i with e | ⟨r, hr, -, e⟩
    · exact hquiet (.refl h) (by rw [hstep, e])
    · have hag : n.Agrees voters g g (n.put i r.ended) :=
        h.put_quiet (replica?_eq_some.mp hr).1 (setLeader_log ..) (setLeader_applied ..)
          (setLeader_id ..) (setLeader_address ..) (setLeader_voters ..) fun hl => by
            simp [ended] at hl
      exact hquiet hag (by rw [hstep, e])
  | _ => exact hop.elim

theorem run_agrees {ops : List (Op σ)} (h : n.Sound voters g) (hp : n.Presided g) (hw : n.Wired)
    (hops : ∀ op ∈ ops, op.Works) :
    ∃ g', n.Agrees voters g g' (n.run ops) ∧ (n.run ops).Presided g' := by
  induction ops generalizing n g with
  | nil => exact ⟨g, .refl h, hp⟩
  | cons op ops ih =>
    obtain ⟨g', hag, hp'⟩ := step_agrees h hp hw (hops op (List.mem_cons_self ..))
    obtain ⟨g'', hag', hp''⟩ := ih hag.sound hp' (wired_step hw op) fun x hx =>
      hops x (List.mem_cons_of_mem op hx)
    exact ⟨g'', hag.trans hag', hp''⟩

end ReplicatedTable.Raft.Network
