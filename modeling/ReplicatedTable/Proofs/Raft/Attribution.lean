import ReplicatedTable.Proofs.Raft.Electorate
import ReplicatedTable.Proofs.Raft.Journal

/-!
# Who wrote an entry

Logs are compared by the terms of their entries alone. That says something about what the entries hold if
all entries of a term come from one leader. `Attributed` is what lasts in any run in which only one replica
ever becomes the leader at a term: nobody else leads at this term, and as long as the replica does, its log
holds every entry of the term that there is anywhere, at the same place (`run_attributed`).

Nothing is assumed of voters or of majorities. Two groups that are formed apart from each other write
entries of the same terms, and then neither leader's log holds what the other one wrote.
-/
namespace ReplicatedTable.Raft

variable {σ : Type}

namespace Replica

variable [StateMachine σ]

section
variable {f leader : Replica σ} {term : Nat}

/-- A message leaves a log alone, or merges the leader's log into it. -/
theorem receive_log_cases (hb : f.Bounded) (leader : Replica σ) (term : Nat) :
    (f.receive leader term).1.log = f.log ∨
      (f.receive leader term).1.log = Log.merge f.log leader.log := by
  have hc := receive_receipt f leader term hb
  generalize (f.receive leader term).1 = r, (f.receive leader term).2 = ans at hc ⊢
  cases hc with
  | down hs => exact Or.inl rfl
  | stale hs ht => exact Or.inl rfl
  | halted hs ht hh => exact Or.inl (follow_log ..)
  | conflict hs ht hh hc hl => exact Or.inl (follow_log ..)
  | taken hs ht hh hc hr => exact Or.inr (by rw [hr, applyUpTo_log, taking])

omit [StateMachine σ] in
/-- A replica that goes on leading has not come to another term. -/
theorem follow_of_leader {address : String} (hne : address ≠ f.address)
    (h : (f.follow term address).leader = true) : f.follow term address = f := by
  unfold follow at h ⊢
  split
  · rename_i hc
    rw [if_pos hc, if_neg hne, setLeader_leader] at h
    cases h
  · rfl

/-- A replica that goes on leading has heard nothing, or is at the term of the message already. -/
theorem receive_of_leader (hne : leader.address ≠ f.address)
    (h : (f.receive leader term).1.leader = true) :
    f.leader = true ∧ (f.receive leader term).1.term = f.term ∧
      ((f.receive leader term).1 = f ∨ f.term = term) := by
  rcases receive_eq f leader term with ⟨e, -⟩ | ⟨-, ht, _, _, _, _, e⟩
  · rw [e] at h ⊢
    exact ⟨h, rfl, Or.inl rfl⟩
  · rw [e] at h ⊢
    have hsame := follow_of_leader hne h
    have hterm := follow_term leader.address ht
    rw [hsame] at h hterm
    rw [hsame]
    exact ⟨h, rfl, Or.inr hterm⟩

end

end Replica

namespace Network
open Replica

/-- Some replica has this entry at this place of its log. -/
def Written (n : Network σ) (k : Nat) (e : Entry) : Prop :=
  ∃ (j : Nat) (r : Replica σ), n.replicas[j]? = some r ∧ r.log[k]? = some e

/-- The entries of a term come from one replica. -/
structure Attributed (term i : Nat) (n : Network σ) : Prop where
  /-- Nobody else leads at the term. -/
  leads : ∀ (j : Nat) (r : Replica σ), n.replicas[j]? = some r → r.leader = true → r.term = term →
    j = i
  /-- There is no such entry before the replica has come to the term. -/
  reached : ∀ k e, n.Written k e → e.term = term →
    ∃ r : Replica σ, n.replicas[i]? = some r ∧ term ≤ r.term
  /-- As long as it leads at the term, it holds all of them. -/
  holds : ∀ r : Replica σ, n.replicas[i]? = some r → r.leader = true → r.term = term →
    ∀ k e, n.Written k e → e.term = term → r.log[k]? = some e

variable {n m : Network σ} {term i j : Nat} {x y : Replica σ}

theorem attributed_empty (term i : Nat) : ({} : Network σ).Attributed term i where
  leads j r hr := by simp at hr
  reached k e := by
    rintro ⟨j, r, hr, -⟩
    simp at hr
  holds r hr := by simp at hr

/-! ## One replica changes -/

theorem Attributed.of_replicas (h : n.Attributed term i) (e : m.replicas = n.replicas) :
    m.Attributed term i := by
  have hw : ∀ k e, m.Written k e → n.Written k e := fun k x ⟨j, r, hr, hx⟩ => ⟨j, r, e ▸ hr, hx⟩
  exact ⟨by rw [e]; exact h.leads, fun k x hx => by rw [e]; exact h.reached k x (hw k x hx),
    fun r hr hl ht k x hx => h.holds r (e ▸ hr) hl ht k x (hw k x hx)⟩

/-- A replica that has no entries joins. -/
theorem Attributed.enlarged (h : n.Attributed term i) (r : Replica σ) (hlog : r.log = [])
    (hl : r.leader = false) (hm : m.replicas = n.replicas ++ [r]) : m.Attributed term i := by
  have hw : ∀ k e, m.Written k e → n.Written k e := by
    rintro k e ⟨j, x, hx, he⟩
    rw [hm] at hx
    rcases getElem?_concat_cases hx with hx | ⟨-, rfl⟩
    · exact ⟨j, x, hx, he⟩
    · simp [hlog] at he
  have hold : ∀ {j : Nat} {x : Replica σ}, m.replicas[j]? = some x → x.leader = true →
      n.replicas[j]? = some x := by
    intro j x hx hxl
    rw [hm] at hx
    rcases getElem?_concat_cases hx with hx | ⟨-, rfl⟩
    · exact hx
    · rw [hl] at hxl
      cases hxl
  refine ⟨fun j x hx hxl => h.leads j x (hold hx hxl) hxl, fun k e hk he => ?_,
    fun x hx hxl ht k e hk => h.holds x (hold hx hxl) hxl ht k e (hw k e hk)⟩
  obtain ⟨x, hx, hle⟩ := h.reached k e (hw k e hk) he
  refine ⟨x, ?_, hle⟩
  rw [hm, List.getElem?_append_left (List.getElem?_eq_some_iff.mp hx).1]
  exact hx

/-- One replica changes: it comes to lead at the term only if it is the one, and takes entries of the term
from others, or writes them if it is the one. -/
theorem Attributed.put (h : n.Attributed term i) (hx : n.replicas[j]? = some x)
    (hterm : x.term ≤ y.term)
    (hlead : y.leader = true → y.term = term → j = i ∧ (x.term < term ∨ x.leader = true ∧
      x.term = term ∧ ∀ (k : Nat) (e : Entry), x.log[k]? = some e → e.term = term → y.log[k]? = some e))
    (hlog : ∀ (k : Nat) (e : Entry), y.log[k]? = some e → e.term = term →
      n.Written k e ∨ j = i ∧ term ≤ y.term) : (n.put j y).Attributed term i := by
  have hself : (n.put j y).replicas[j]? = some y := put_getElem?_self y hx
  have hwritten : ∀ k e, (n.put j y).Written k e → n.Written k e ∨ y.log[k]? = some e := by
    rintro k e ⟨l, r, hr, he⟩
    rcases put_getElem?_cases y hr with ⟨-, rfl⟩ | ⟨-, hr⟩
    · exact Or.inr he
    · exact Or.inl ⟨l, r, hr, he⟩
  refine ⟨fun l r hr hl ht => ?_, fun k e hk he => ?_, fun r hr hl ht k e hk he => ?_⟩
  · rcases put_getElem?_cases y hr with ⟨rfl, rfl⟩ | ⟨-, hr⟩
    · exact (hlead hl ht).1
    · exact h.leads l r hr hl ht
  · have hold : n.Written k e →
        ∃ r : Replica σ, (n.put j y).replicas[i]? = some r ∧ term ≤ r.term := by
      intro hk
      obtain ⟨r, hr, hle⟩ := h.reached k e hk he
      by_cases hji : j = i
      · subst hji
        rw [hx] at hr
        cases hr
        exact ⟨y, hself, Nat.le_trans hle hterm⟩
      · exact ⟨r, (put_getElem?_ne n j y hji).trans hr, hle⟩
    rcases hwritten k e hk with hk | hk
    · exact hold hk
    · rcases hlog k e hk he with hk | ⟨rfl, hle⟩
      · exact hold hk
      · exact ⟨y, hself, hle⟩
  · rcases put_getElem?_cases y hr with ⟨rfl, rfl⟩ | ⟨hij, hr⟩
    · rcases hwritten k e hk with hk | hk
      · rcases (hlead hl ht).2 with hlt | ⟨hxl, hxt, hkeep⟩
        · -- the one comes to the term only now, so there is nothing of it yet
          obtain ⟨r', hr', hle⟩ := h.reached k e hk he
          rw [hx] at hr'
          cases hr'
          omega
        · exact hkeep k e (h.holds x hx hxl hxt k e hk he) he
      · exact hk
    · have hold := h.holds r hr hl ht k e
      rcases hwritten k e hk with hk | hk
      · exact hold hk he
      · rcases hlog k e hk he with hk | ⟨rfl, -⟩
        · exact hold hk he
        · exact absurd rfl hij

/-- The log stays, and the replica does not come to lead at the term. -/
theorem Attributed.put_quiet (h : n.Attributed term i) (hx : n.replicas[j]? = some x)
    (hlog : y.log = x.log) (hterm : x.term ≤ y.term)
    (hlead : y.leader = true → x.leader = true ∧ y.term = x.term) :
    (n.put j y).Attributed term i := by
  refine h.put hx hterm (fun hl ht => ?_) fun k e hk _ => Or.inl ⟨j, x, hx, hlog ▸ hk⟩
  obtain ⟨hxl, hxt⟩ := hlead hl
  have hxt' : x.term = term := hxt.symm.trans ht
  exact ⟨h.leads j x hx hxl hxt', Or.inr ⟨hxl, hxt', fun k e hk _ => by rw [hlog]; exact hk⟩⟩

/-- A replica is crowned. -/
theorem Attributed.put_crowned (h : n.Attributed term i) (hx : n.replicas[j]? = some x)
    (hlog : y.log = x.log) (hterm : x.term < y.term) (hone : y.term = term → j = i) :
    (n.put j y).Attributed term i := by
  refine h.put hx (Nat.le_of_lt hterm) (fun _ ht => ?_) fun k e hk _ => Or.inl ⟨j, x, hx, hlog ▸ hk⟩
  exact ⟨hone ht, Or.inl (ht ▸ hterm)⟩

theorem Attributed.push (h : n.Attributed term i) (hx : n.replicas[j]? = some x)
    (hl : x.leader = true) (data : List UInt8) : (n.put j (x.pushed data)).Attributed term i := by
  refine h.put hx (Nat.le_refl _) (fun _ ht => ?_) fun k e hk he => ?_
  · refine ⟨h.leads j x hx hl ht, Or.inr ⟨hl, ht, fun k e hk _ => ?_⟩⟩
    exact (List.getElem?_append_left (List.getElem?_eq_some_iff.mp hk).1).trans hk
  · have hk' : (x.log ++ [(⟨x.term, data⟩ : Entry)])[k]? = some e := hk
    rw [List.getElem?_append] at hk'
    split at hk'
    · exact Or.inl ⟨j, x, hx, hk'⟩
    · have hmem := List.mem_singleton.mp (List.mem_of_getElem? hk')
      subst hmem
      exact Or.inr ⟨h.leads j x hx hl he, Nat.le_of_eq he.symm⟩

variable [StateMachine σ]

/-! ## Messages of a leader -/

/-- A leader's message brings entries that the leader has. -/
theorem Attributed.receive (h : n.Attributed term i) {l : Nat} {leader : Replica σ}
    (hleader : n.replicas[l]? = some leader) (hl : leader.leader = true)
    (hx : n.replicas[j]? = some x) (hb : x.Bounded) (hne : leader.address ≠ x.address) :
    (n.put j (x.receive leader leader.term).1).Attributed term i := by
  refine h.put hx (term_le_receive ..) (fun hy ht => ?_) fun k e hk _ => ?_
  · obtain ⟨hxl, hxt, hsame⟩ := receive_of_leader hne hy
    have hxt' : x.term = term := hxt.symm.trans ht
    have hji := h.leads j x hx hxl hxt'
    refine ⟨hji, Or.inr ⟨hxl, hxt', ?_⟩⟩
    rcases hsame with e | hsame
    · rw [e]
      exact fun k e hk _ => hk
    · -- two leaders of the term would be one replica
      have hli := h.leads l leader hleader hl (hsame.symm.trans hxt')
      rw [hli, ← hji, hx] at hleader
      cases hleader
      exact absurd rfl hne
  · left
    rcases receive_log_cases hb leader leader.term with e' | e' <;> rw [e'] at hk
    · exact ⟨j, x, hx, hk⟩
    · rcases Log.merge_getElem? hk with hk | hk
      · exact ⟨j, x, hx, hk⟩
      · exact ⟨l, leader, hleader, hk⟩

omit [StateMachine σ] in
theorem Attributed.acceptVoters (h : n.Attributed term i) (leader : Replica σ)
    (hx : n.replicas[j]? = some x) (hne : leader.address ≠ x.address) :
    (n.put j (x.acceptVoters leader.term leader.address leader.voters leader.votersIndex).1).Attributed
      term i := by
  rcases acceptVoters_eq x leader.term leader.address leader.voters leader.votersIndex with
    ⟨e, -⟩ | ⟨-, ht, e⟩ <;> rw [e]
  · exact h.put_quiet hx rfl (Nat.le_refl _) fun hl => ⟨hl, rfl⟩
  · refine h.put_quiet hx (follow_log ..) ?_ fun hl => ?_
    · show x.term ≤ (x.follow leader.term leader.address).term
      rw [follow_term _ ht]
      exact ht
    · have hsame := follow_of_leader hne (f := x) hl
      show x.leader = true ∧ (x.follow leader.term leader.address).term = x.term
      rw [hsame]
      exact ⟨hsame ▸ hl, rfl⟩

omit [StateMachine σ] in
/-- What a leader does to one peer after another. -/
theorem Attributed.mapAt (h : n.Attributed term i) (hb : n.Everywhere Bounded) {l : Nat}
    {leader : Replica σ} (hleader : n.replicas[l]? = some leader) {f : Replica σ → Replica σ}
    {js : List Nat} (hjs : ∀ j ∈ js, ∀ x, n.replicas[j]? = some x → leader.address ≠ x.address)
    (haddress : ∀ x, (f x).address = x.address) (hbound : ∀ x, x.Bounded → (f x).Bounded)
    (hone : ∀ (m : Network σ) (j : Nat) (x : Replica σ), m.Attributed term i →
      m.replicas[l]? = some leader → m.replicas[j]? = some x → x.Bounded →
      leader.address ≠ x.address → (m.put j (f x)).Attributed term i) :
    (n.mapAt f js).Attributed term i := by
  let P : Network σ → Prop := fun m => m.Attributed term i ∧ m.Everywhere Bounded ∧
    m.replicas[l]? = some leader ∧ ∀ j ∈ js, ∀ x, m.replicas[j]? = some x → leader.address ≠ x.address
  refine (mapAt_induction (P := P) (fun m j x hj hm hx => ?_) ⟨h, hb, hleader, hjs⟩).1
  obtain ⟨hm, hmb, hml, hmjs⟩ := hm
  have hat := (replica?_eq_some.mp hx).1
  have hne := hmjs j hj x hat
  refine ⟨hone m j x hm hml hat (hmb j x hat) hne, fun k y hy => ?_, ?_, fun k hk y hy => ?_⟩
  · rcases put_getElem?_cases _ hy with ⟨-, rfl⟩ | ⟨-, hy⟩
    · exact hbound x (hmb j x hat)
    · exact hmb k y hy
  · have hjl : j ≠ l := by
      rintro rfl
      rw [hml] at hat
      cases hat
      exact hne rfl
    exact (put_getElem?_ne m j _ hjl).trans hml
  · rcases put_getElem?_cases _ hy with ⟨-, rfl⟩ | ⟨-, hy⟩
    · rw [haddress]
      exact hne
    · exact hmjs k hk y hy

/-- The leader brings its peers in line. -/
theorem Attributed.receiveAll (h : n.Attributed term i) (hb : n.Everywhere Bounded) {l : Nat}
    {leader : Replica σ} (hleader : n.replicas[l]? = some leader) (hl : leader.leader = true)
    (js : List Nat) (hjs : ∀ j ∈ js, ∀ x, n.replicas[j]? = some x → leader.address ≠ x.address) :
    (n.mapAt (fun f => (f.receive leader leader.term).1) js).Attributed term i :=
  h.mapAt hb hleader hjs (fun f => receive_address f leader leader.term)
    (fun _ hbx => bounded_lasting (.receive (hb l leader hleader) hl leader.term) hbx)
    fun _ _ _ hm hml hx hbx hne => hm.receive hml hl hx hbx hne

/-- The leader hands its voters to its peers and brings them in line. -/
theorem Attributed.adoptAll (h : n.Attributed term i) (hb : n.Everywhere Bounded) {l : Nat}
    {leader : Replica σ} (hleader : n.replicas[l]? = some leader) (hl : leader.leader = true)
    (js : List Nat) (hjs : ∀ j ∈ js, ∀ x, n.replicas[j]? = some x → leader.address ≠ x.address) :
    (n.mapAt (adopt leader) js).Attributed term i := by
  have haccept : ∀ x : Replica σ, x.Bounded →
      (x.acceptVoters leader.term leader.address leader.voters leader.votersIndex).1.Bounded :=
    fun x hbx => bounded_lasting (.acceptVoters (hb l leader hleader) hl) hbx
  refine h.mapAt hb hleader hjs (fun f => adopt_address f leader) (fun x hbx => ?_)
    fun m j x hm hml hx hbx hne => ?_
  · obtain ⟨y, rfl, e | e⟩ := adopt_eq x leader <;> rw [e]
    · exact haccept x hbx
    · exact bounded_lasting (.receive (hb l leader hleader) hl leader.term) (haccept x hbx)
  · have hvoters := hm.acceptVoters leader hx hne
    obtain ⟨y, rfl, e | e⟩ := adopt_eq x leader <;> rw [e]
    · exact hvoters
    · have hjl : j ≠ l := by
        rintro rfl
        rw [hml] at hx
        cases hx
        exact hne rfl
      have hreceive := hvoters.receive ((put_getElem?_ne m j _ hjl).trans hml) hl
        (put_getElem?_self _ hx) (haccept x hbx) (by rw [acceptVoters_address]; exact hne)
      rwa [put_put] at hreceive

/-! ## Steps and runs -/

omit [StateMachine σ] in
/-- Whom a replica reaches is at another address, whatever has changed since. -/
theorem Wired.peers_apart (hw : n.Wired) (hm : m.roster = n.roster) {r : Replica σ}
    (hj : j ∈ n.reachable r) (hx : m.replicas[j]? = some x) : r.address ≠ x.address := by
  obtain ⟨y, id, hy, -, -, hne⟩ := hw.peer hj
  have hname := roster_getElem? hx
  rw [hm, roster_getElem? (replica?_eq_some.mp hy).1] at hname
  have haddress : y.address = x.address := congrArg Prod.snd (Option.some.inj hname)
  exact haddress ▸ hne.symm

section
variable (h : n.Attributed term i) (hw : n.Wired) (hb : n.Everywhere Bounded)
include h hw hb

theorem Attributed.campaign (l : Nat)
    (hone : ∀ c, n.crowning? (.campaign l) = some c → c.term = term → c.replica = i) :
    (n.campaign l).network.Attributed term i := by
  have hc := campaign_election hw l
  simp only [crowning?] at hone
  generalize (n.campaign l).network = m, (n.campaign l).answer = ans at hc hone ⊢
  cases hc with
  | refused e => exact h
  | @won r hr he =>
    have hat := (replica?_eq_some.mp hr).1
    rw [hr] at hone
    have hterm : r.term < n.nextTerm r := by unfold nextTerm; omega
    have hput : n.Evolves { sender := Bounded } (n.put l (r.elected (n.nextTerm r))) :=
      .put hat (.single (.elect hterm he.voter he.running))
    have hcrowned : (n.put l (r.elected (n.nextTerm r))).Attributed term i :=
      h.put_crowned hat (elected_log ..) (by rw [elected_term]; exact hterm) fun ht =>
        hone _ rfl (by rw [← ht, elected_term])
    have hall := hcrowned.receiveAll (hput.everywhere bounded_lasting hb)
      (put_getElem?_self _ hat) (elected_leader ..) (n.reachable r) fun j hj x hx => by
        rw [elected_address]
        exact hw.peers_apart hput.roster hj hx
    rw [elected_term] at hall
    exact hall

theorem Attributed.addVoter (l : Nat) (id address : String) (prev : Nat) :
    (n.addVoter l id address prev).network.Attributed term i := by
  have hc := addVoter_admission hw l id address prev
  generalize (n.addVoter l id address prev).network = m,
    (n.addVoter l id address prev).answer = ans at hc ⊢
  cases hc with
  | refused e => exact h
  | present hr hl hv => exact h
  | @done r hr hs hl hp hv =>
    have hat := (replica?_eq_some.mp hr).1
    have hput : n.Evolves { sender := Bounded } (n.put l (r.widened id address)) :=
      .put hat (.single (.widen trivial hl))
    have hwidened : (n.put l (r.widened id address)).Attributed term i :=
      h.put_quiet hat rfl (Nat.le_refl _) fun hl => ⟨hl, rfl⟩
    exact hwidened.adoptAll (hput.everywhere bounded_lasting hb) (put_getElem?_self _ hat) hl _
      fun j hj x hx => hw.peers_apart (r := r.widened id address) hput.roster hj hx

theorem Attributed.spread {l : Nat} {r : Replica σ} (hr : n.replica? l = some r)
    (hl : r.leader = true) (data : List UInt8) : (n.spread l r data).Attributed term i := by
  have hat := (replica?_eq_some.mp hr).1
  have hput : n.Evolves { sender := Bounded } (n.put l (r.pushed data)) :=
    .put hat (.single (.push data trivial))
  exact (h.push hat hl data).receiveAll (hput.everywhere bounded_lasting hb)
    (put_getElem?_self _ hat) hl _ fun j hj x hx =>
      hw.peers_apart (r := r.pushed data) hput.roster hj hx

theorem Attributed.submit (l : Nat) (data : List UInt8) :
    (n.submit l data).network.Attributed term i := by
  have hc := submit_write hw l data
  generalize (n.submit l data).network = m, (n.submit l data).answer = ans at hc ⊢
  have happlied : ∀ {r r' : Replica σ} {ans : Except Error Unit}, n.replica? l = some r →
      r.leader = true → (r.pushed data).applyUpTo (r.pushed data).log.length = (r', ans) →
      ((n.spread l r data).put l r').Attributed term i := by
    intro r r' ans hr hl e
    have hr' : r' = ((r.pushed data).applyUpTo (r.pushed data).log.length).1 := by rw [e]
    exact (h.spread hw hb hr hl data).put_quiet (spread_self hw hr data) (by simp [hr'])
      (by simp [hr']) fun _ => ⟨hl, by simp [hr']⟩
  cases hc with
  | refused e => exact h
  | conceded hr hl hn hp =>
    exact h.put_quiet (replica?_eq_some.mp hr).1 (by simp [deposed])
      (by simpa [deposed] using Nat.le_of_lt hn) fun hl => by simp [deposed] at hl
  | unacknowledged hr hwr => exact h.spread hw hb hr hwr.leads data
  | failed hr hwr ha hf => exact happlied hr hwr.leads hf
  | @committed r r' hr hwr ha hc =>
    obtain ⟨hev, -, hl'⟩ := applied_evolves hw bounded_lasting hb trivial hr hwr.leads hc
    have hr' : r' = ((r.pushed data).applyUpTo (r.pushed data).log.length).1 := by rw [hc]
    have hterm : r'.term = r.term := by simp [hr', pushed]
    have haddress : r'.address = r.address := by simp [hr', pushed]
    have hall := (happlied hr hwr.leads hc).receiveAll (hev.everywhere bounded_lasting hb)
      (put_getElem?_self _ (spread_self hw hr data)) hl' (n.reachable r) fun j hj x hx => by
        rw [haddress]
        exact hw.peers_apart hev.roster hj hx
    rw [hterm] at hall
    exact hall

/-- The entries of a term stay with one replica as long as nobody else is crowned at the term. -/
theorem attributed_step (op : Op σ)
    (hone : ∀ c, n.crowning? op = some c → c.term = term → c.replica = i) :
    (n.step op).network.Attributed term i := by
  cases op with
  | register id address machine =>
    show (n.register id address machine).1.Attributed term i
    rcases register_cases n id address machine with e | ⟨-, e⟩ <;> rw [e]
    · exact h
    · exact h.enlarged (fresh id address machine) rfl rfl rfl
  | drop l =>
    show (n.drop l).Attributed term i
    rcases drop_cases n l with e | ⟨r, hr, e⟩ <;> rw [e]
    · exact h
    · exact h.put_quiet (replica?_eq_some.mp hr).1 rfl (Nat.le_refl _) fun hl => ⟨hl, rfl⟩
  | isolate address => exact h.of_replicas rfl
  | heal address => exact h.of_replicas rfl
  | bootstrap l =>
    have hc := bootstrap_founding n l
    simp only [crowning?] at hone
    show (n.bootstrap l).network.Attributed term i
    generalize (n.bootstrap l).network = m, (n.bootstrap l).answer = ans at hc hone ⊢
    cases hc with
    | refused e => exact h
    | done hr hv =>
      rw [replica?_founded hr] at hone
      exact h.put_crowned (replica?_eq_some.mp hr).1 (setLeader_log ..) (by simp [founded])
        (hone _ rfl)
  | campaign l => exact h.campaign hw hb l hone
  | stepDown l =>
    show (n.stepDown l).network.Attributed term i
    rcases stepDown_cases n l with e | ⟨r, hr, e⟩ <;> rw [e]
    · exact h
    · exact h.put_quiet (replica?_eq_some.mp hr).1 (by simp) (by simp) fun hl => by simp at hl
  | shutdown l =>
    show (n.shutdown l).network.Attributed term i
    rcases shutdown_cases n l with e | ⟨r, hr, -, e⟩ <;> rw [e]
    · exact h
    · have hput : (n.put l r.ended).Attributed term i :=
        h.put_quiet (replica?_eq_some.mp hr).1 (by simp [ended]) (by simp [ended])
          fun hl => by simp [ended] at hl
      exact hput.of_replicas rfl
  | addVoter l id address prev => exact h.addVoter hw hb l id address prev
  | submit l data => exact h.submit hw hb l data

end

/-- In a run in which nobody else is crowned at a term, all its entries come from one replica. -/
theorem run_attributed : ∀ {ops : List (Op σ)} {n : Network σ}, n.Wired → n.Everywhere Bounded →
    n.Attributed term i → (∀ c ∈ n.crownings ops, c.term = term → c.replica = i) →
    (n.run ops).Attributed term i
  | [], _, _, _, h, _ => h
  | op :: ops, n, hw, hb, h, hone => by
    have hhead := attributed_step h hw hb op fun c hc =>
      hone c (List.mem_append_left _ (Option.mem_toList.mpr hc))
    have hbound := step_everywhere hw bounded_lasting hb (op.obeys_sender _)
      fun _ _ _ _ => Nat.le_refl 0
    show ((n.step op).network.run ops).Attributed term i
    exact run_attributed (wired_step hw op) hbound hhead fun c hc =>
      hone c (List.mem_append_right _ hc)

end Network

end ReplicatedTable.Raft
