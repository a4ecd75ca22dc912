import Mathlib.Logic.Relation
import ReplicatedTable.Proofs.Raft.Step

/-!
# How replicas change

Whatever happens to a network, each replica goes through single changes: those that its holder makes and
those that messages of leaders make (`Change`). `Rules` narrow down what happens: what leaders have that
send messages, whether groups are founded and entries are written, which voters are added. A property that
every change keeps while leaders have it holds of all replicas in all runs (`run_everywhere`). `run_later`
follows a replica through a run. Terms never fall (`Becomes.term_le`).
-/
namespace ReplicatedTable.Raft

open Relation

variable {σ : Type} [StateMachine σ]

/-- What may happen. -/
structure Rules (σ : Type) where
  /-- What leaders have that send messages. -/
  sender : Replica σ → Prop := fun _ => True
  /-- Whether groups are founded. -/
  founding : Prop := True
  /-- Whether leaders append entries. -/
  writing : Prop := True
  /-- Whom leaders add as voters. -/
  voter : (id address : String) → Prop := fun _ _ => True

namespace Replica

/-- One change of a replica. -/
inductive Change (R : Rules σ) (r : Replica σ) : Replica σ → Prop where
  | found (hf : R.founding) (hv : r.voters = ∅) : Change R r r.founded
  | elect {term : Nat} (ht : r.term < term) (hv : r.id ∈ r.voters) (hs : r.stopped = false) :
    Change R r (r.elected term)
  | resign : Change R r (r.setLeader false)
  | stop : Change R r r.ended
  | drop : Change R r { r with dropped := true }
  | widen {id address : String} (hv : R.voter id address) (hl : r.leader = true) :
    Change R r (r.widened id address)
  | push (data : List UInt8) (hw : R.writing) : Change R r (r.pushed data)
  | depose {term : Nat} (ht : r.term ≤ term) (hl : r.leader = true) : Change R r (r.deposed term)
  | apply (index : Nat) : Change R r (r.applyUpTo index).1
  | receive {leader : Replica σ} (hs : R.sender leader) (hl : leader.leader = true) (term : Nat) :
    Change R r (r.receive leader term).1
  | acceptVoters {leader : Replica σ} (hs : R.sender leader) (hl : leader.leader = true) :
    Change R r (r.acceptVoters leader.term leader.address leader.voters leader.votersIndex).1

/-- Any number of changes. -/
abbrev Becomes (R : Rules σ) : Replica σ → Replica σ → Prop := ReflTransGen (Change R)

variable {R : Rules σ}

theorem Change.term_le {r r' : Replica σ} (h : Change R r r') : r.term ≤ r'.term := by
  cases h with
  | found hf hv => simp [founded]
  | elect ht hv => simpa [elected] using Nat.le_of_lt ht
  | resign => simp
  | stop => simp [ended]
  | drop => exact Nat.le_refl _
  | widen hv hl => exact Nat.le_refl _
  | push data => exact Nat.le_refl _
  | depose ht hl => simpa [deposed] using ht
  | apply index => simp
  | @receive leader hs hl term => exact term_le_receive r leader term
  | @acceptVoters leader hs hl =>
    rcases acceptVoters_eq r leader.term leader.address leader.voters leader.votersIndex with
      ⟨e, -⟩ | ⟨-, ht, e⟩
    · exact Nat.le_of_eq (congrArg Replica.term e).symm
    · rw [e]
      exact Nat.le_trans ht (Nat.le_of_eq (follow_term _ ht).symm)

/-- Ids and addresses never change. -/
theorem Change.name {r r' : Replica σ} (h : Change R r r') :
    r'.id = r.id ∧ r'.address = r.address := by
  cases h with
  | @acceptVoters leader hs hl =>
    rcases acceptVoters_eq r leader.term leader.address leader.voters leader.votersIndex with
      ⟨e, -⟩ | ⟨-, -, e⟩ <;> rw [e]
    · exact ⟨rfl, rfl⟩
    · exact ⟨follow_id .., follow_address ..⟩
  | _ => simp [founded, elected, ended, widened, pushed, deposed]

theorem Becomes.induction {P : Replica σ → Prop} (hstep : ∀ {r r'}, Change R r r' → P r → P r')
    {r r' : Replica σ} (h : Becomes R r r') (hr : P r) : P r' := by
  induction h with
  | refl => exact hr
  | tail _ hc ih => exact hstep hc ih

theorem Becomes.term_le {r r' : Replica σ} (h : Becomes R r r') : r.term ≤ r'.term :=
  Becomes.induction (P := fun x => r.term ≤ x.term) (fun hc h => Nat.le_trans h hc.term_le) h
    (Nat.le_refl _)

theorem Becomes.name {r r' : Replica σ} (h : Becomes R r r') :
    r'.id = r.id ∧ r'.address = r.address :=
  Becomes.induction (P := fun x => x.id = r.id ∧ x.address = r.address)
    (fun hc hx => ⟨hc.name.1.trans hx.1, hc.name.2.trans hx.2⟩) h ⟨rfl, rfl⟩

end Replica

namespace Network
open Replica

variable {R : Rules σ}

/-! ## Nobody comes, everybody changes -/

/-- The replicas are those that there were, each after some changes. -/
structure Evolves (R : Rules σ) (n m : Network σ) : Prop where
  length : m.replicas.length = n.replicas.length
  becomes : ∀ (j : Nat) (r : Replica σ), n.replicas[j]? = some r →
    ∃ r', m.replicas[j]? = some r' ∧ Becomes R r r'

theorem Evolves.refl (n : Network σ) : n.Evolves R n := ⟨rfl, fun _ r h => ⟨r, h, .refl⟩⟩

theorem Evolves.trans {n m k : Network σ} (h : n.Evolves R m) (h' : m.Evolves R k) :
    n.Evolves R k where
  length := h'.length.trans h.length
  becomes j r hr := by
    obtain ⟨x, hx, hb⟩ := h.becomes j r hr
    obtain ⟨y, hy, hb'⟩ := h'.becomes j x hx
    exact ⟨y, hy, hb.trans hb'⟩

theorem Evolves.put {n : Network σ} {i : Nat} {r r' : Replica σ} (hr : n.replicas[i]? = some r)
    (h : Becomes R r r') : n.Evolves R (n.put i r') where
  length := length_put n i r'
  becomes j x hx := by
    by_cases hij : i = j
    · subst hij
      rw [hr] at hx
      cases hx
      exact ⟨r', put_getElem?_self r' hr, h⟩
    · exact ⟨x, (put_getElem?_ne n i r' hij).trans hx, .refl⟩

theorem Evolves.mapAt {n : Network σ} {f : Replica σ → Replica σ} (h : ∀ r, Becomes R r (f r))
    (js : List Nat) : n.Evolves R (n.mapAt f js) :=
  mapAt_induction (P := n.Evolves R)
    (fun _ _ r _ hm hr => hm.trans (.put (replica?_eq_some.mp hr).1 (h r))) (.refl n)

theorem Evolves.receive (n : Network σ) {leader : Replica σ} (hs : R.sender leader)
    (hl : leader.leader = true) (term : Nat) (js : List Nat) :
    n.Evolves R (n.mapAt (fun f => (f.receive leader term).1) js) :=
  .mapAt (fun _ => .single (.receive hs hl term)) js

theorem Evolves.adopt (n : Network σ) {leader : Replica σ} (hs : R.sender leader)
    (hl : leader.leader = true) (js : List Nat) :
    n.Evolves R (n.mapAt (Network.adopt leader) js) := by
  refine .mapAt (fun r => ?_) js
  obtain ⟨x, rfl, e | e⟩ := adopt_eq r leader <;> rw [e]
  · exact .single (.acceptVoters hs hl)
  · exact (ReflTransGen.single (.acceptVoters hs hl)).tail (.receive hs hl leader.term)

/-! ## Steps and runs -/

theorem run_append (n : Network σ) (ops later : List (Op σ)) :
    n.run (ops ++ later) = (n.run ops).run later := List.foldl_append ..

theorem run_concat (n : Network σ) (ops : List (Op σ)) (op : Op σ) :
    n.run (ops ++ [op]) = ((n.run ops).step op).network := List.foldl_append ..

/-- What rules say of an operation. -/
def Op.Obeys (R : Rules σ) : Op σ → Prop
  | .bootstrap _ => R.founding
  | .addVoter _ voter address _ => R.voter voter address
  | .submit _ _ => R.writing
  | _ => True

/-- Every change keeps what leaders have. -/
def Lasting (R : Rules σ) : Prop := ∀ {r r' : Replica σ}, Change R r r' → R.sender r → R.sender r'

/-- All replicas have a property. -/
def Everywhere (S : Replica σ → Prop) (n : Network σ) : Prop :=
  ∀ (j : Nat) (r : Replica σ), n.replicas[j]? = some r → S r

theorem Evolves.everywhere {n m : Network σ} (h : n.Evolves R m) (hR : Lasting R)
    (hn : n.Everywhere R.sender) : m.Everywhere R.sender := by
  intro j r' hr'
  have hlt : j < n.replicas.length := by
    rw [← h.length]; exact (List.getElem?_eq_some_iff.mp hr').1
  obtain ⟨x, hx, hb⟩ := h.becomes j _ (List.getElem?_eq_getElem hlt)
  rw [hr'] at hx
  cases hx
  exact Becomes.induction hR hb (hn j _ (List.getElem?_eq_getElem hlt))

section
variable {n : Network σ} (hw : n.Wired) (hR : Lasting R) (hn : n.Everywhere R.sender)
include hw hR hn

theorem campaign_evolves (i : Nat) : n.Evolves R (n.campaign i).network := by
  have hc := campaign_election hw i
  generalize (n.campaign i).network = m, (n.campaign i).answer = ans at hc ⊢
  cases hc with
  | refused e => exact .refl n
  | @won r hr h =>
    have hterm : r.term < n.nextTerm r := by unfold nextTerm; omega
    have hat := (replica?_eq_some.mp hr).1
    have helect : Change R r (r.elected (n.nextTerm r)) := .elect hterm h.voter h.running
    exact (Evolves.put hat (.single helect)).trans
      (.receive _ (hR helect (hn i r hat)) (setLeader_leader ..) _ _)

theorem addVoter_evolves (i : Nat) {id address : String} (hv : R.voter id address) (prev : Nat) :
    n.Evolves R (n.addVoter i id address prev).network := by
  have hc := addVoter_admission hw i id address prev
  generalize (n.addVoter i id address prev).network = m,
    (n.addVoter i id address prev).answer = ans at hc ⊢
  cases hc with
  | refused e => exact .refl n
  | present hr hl hv => exact .refl n
  | @done r hr hs hl hp _ =>
    have hat := (replica?_eq_some.mp hr).1
    have hwiden : Change R r (r.widened id address) := .widen hv hl
    exact (Evolves.put hat (.single hwiden)).trans (.adopt _ (hR hwiden (hn i r hat)) hl _)

omit hw in
theorem spread_evolves (hwrite : R.writing) {i : Nat} {r : Replica σ} (hr : n.replica? i = some r)
    (hl : r.leader = true) (data : List UInt8) : n.Evolves R (n.spread i r data) := by
  have hat := (replica?_eq_some.mp hr).1
  have hpush : Change R r (r.pushed data) := .push data hwrite
  exact (Evolves.put hat (.single hpush)).trans (.receive _ (hR hpush (hn i r hat)) hl _ _)

/-- The leader has applied its entry, and may send it on. -/
theorem applied_evolves (hwrite : R.writing) {i : Nat} {r r' : Replica σ}
    (hr : n.replica? i = some r) (hl : r.leader = true) {data : List UInt8} {ans : Except Error Unit}
    (h : (r.pushed data).applyUpTo (r.pushed data).log.length = (r', ans)) :
    n.Evolves R ((n.spread i r data).put i r') ∧ R.sender r' ∧ r'.leader = true := by
  have hr' : r' = ((r.pushed data).applyUpTo (r.pushed data).log.length).1 := by rw [h]
  have happly : Change R (r.pushed data) r' := by
    rw [hr']
    exact .apply _
  refine ⟨(spread_evolves hR hn hwrite hr hl data).trans
    (.put (spread_self hw hr data) (.single happly)),
    hR happly (hR (.push data hwrite) (hn i r (replica?_eq_some.mp hr).1)), ?_⟩
  rw [hr', applyUpTo_leader]
  exact hl

theorem submit_evolves (hwrite : R.writing) (i : Nat) (data : List UInt8) :
    n.Evolves R (n.submit i data).network := by
  have hc := submit_write hw i data
  generalize (n.submit i data).network = m, (n.submit i data).answer = ans at hc ⊢
  cases hc with
  | refused e => exact .refl n
  | conceded hr hl hn hp =>
    exact .put (replica?_eq_some.mp hr).1 (.single (.depose (Nat.le_of_lt hn) hl))
  | unacknowledged hr h ha => exact spread_evolves hR hn hwrite hr h.leads data
  | failed hr h ha hf => exact (applied_evolves hw hR hn hwrite hr h.leads hf).1
  | committed hr h ha hc =>
    obtain ⟨hev, hs, hl⟩ := applied_evolves hw hR hn hwrite hr h.leads hc
    exact hev.trans (.receive _ hs hl _ _)

end

/-- In one step a replica is registered, or everybody changes. -/
theorem step_evolves {n : Network σ} (hw : n.Wired) (hR : Lasting R)
    (hn : n.Everywhere R.sender) {op : Op σ} (hop : op.Obeys R) :
    n.Evolves R (n.step op).network ∨ ∃ id address machine, op = .register id address machine ∧
      (n.step op).network.replicas = n.replicas ++ [fresh id address machine] := by
  cases op with
  | register id address machine =>
    have hstep : (n.step (.register id address machine)).network =
        (n.register id address machine).1 := rfl
    rw [hstep]
    rcases register_cases n id address machine with e | ⟨-, e⟩ <;> rw [e]
    · exact Or.inl (.refl n)
    · exact Or.inr ⟨id, address, machine, rfl, rfl⟩
  | drop i =>
    left
    show n.Evolves R (n.drop i)
    rcases drop_cases n i with e | ⟨r, hr, e⟩ <;> rw [e]
    · exact .refl n
    · exact .put (replica?_eq_some.mp hr).1 (.single .drop)
  | isolate address => exact Or.inl ⟨rfl, fun _ r h => ⟨r, h, .refl⟩⟩
  | heal address => exact Or.inl ⟨rfl, fun _ r h => ⟨r, h, .refl⟩⟩
  | bootstrap i =>
    left
    have hc := bootstrap_founding n i
    show n.Evolves R (n.bootstrap i).network
    generalize (n.bootstrap i).network = m, (n.bootstrap i).answer = ans at hc ⊢
    cases hc with
    | refused e => exact .refl n
    | done hr hv => exact .put (replica?_eq_some.mp hr).1 (.single (.found hop hv))
  | campaign i => exact Or.inl (campaign_evolves hw hR hn i)
  | stepDown i =>
    left
    show n.Evolves R (n.stepDown i).network
    rcases stepDown_cases n i with e | ⟨r, hr, e⟩ <;> rw [e]
    · exact .refl n
    · exact .put (replica?_eq_some.mp hr).1 (.single .resign)
  | shutdown i =>
    left
    show n.Evolves R (n.shutdown i).network
    rcases shutdown_cases n i with e | ⟨r, hr, -, e⟩ <;> rw [e]
    · exact .refl n
    · have hput : n.Evolves R (n.put i r.ended) :=
        .put (replica?_eq_some.mp hr).1 (.single .stop)
      exact ⟨hput.length, hput.becomes⟩
  | addVoter i id address prev => exact Or.inl (addVoter_evolves hw hR hn i hop prev)
  | submit i data => exact Or.inl (submit_evolves hw hR hn hop i data)

theorem step_everywhere {n : Network σ} (hw : n.Wired) (hR : Lasting R)
    (hn : n.Everywhere R.sender) {op : Op σ} (hop : op.Obeys R)
    (hnew : ∀ id address machine, op = .register id address machine →
      R.sender (fresh id address machine)) : (n.step op).network.Everywhere R.sender := by
  rcases step_evolves hw hR hn hop with h | ⟨id, address, machine, hreg, e⟩
  · exact h.everywhere hR hn
  · intro j r hr
    rw [e] at hr
    rcases getElem?_concat_cases hr with hr | ⟨-, rfl⟩
    · exact hn j r hr
    · exact hnew id address machine hreg

/-- What the replicas have that are registered, and what lasts, all replicas have in every run. -/
theorem run_everywhere {n : Network σ} (hw : n.Wired) (hR : Lasting R)
    (hn : n.Everywhere R.sender) {ops : List (Op σ)} (hops : ∀ op ∈ ops, op.Obeys R)
    (hnew : ∀ id address machine, .register id address machine ∈ ops →
      R.sender (fresh id address machine)) : (n.run ops).Everywhere R.sender := by
  induction ops generalizing n with
  | nil => exact hn
  | cons op ops ih =>
    refine ih (wired_step hw op)
      (step_everywhere hw hR hn (hops op (List.mem_cons_self ..)) fun id address machine h => ?_)
      (fun x h => hops x (List.mem_cons_of_mem _ h))
      fun id address machine h => hnew id address machine (List.mem_cons_of_mem _ h)
    exact hnew id address machine (h ▸ List.mem_cons_self ..)

omit [StateMachine σ] in
theorem everywhere_empty {P : Replica σ → Prop} : ({} : Network σ).Everywhere P :=
  fun j r h => by simp at h

/-! ## Writes apart -/

omit [StateMachine σ] in
theorem Everywhere.put {n : Network σ} {P : Replica σ → Prop} (h : n.Everywhere P) {r : Replica σ}
    (hr : P r) (i : Nat) : (n.put i r).Everywhere P := by
  intro j x hx
  rcases put_getElem?_cases r hx with ⟨-, rfl⟩ | ⟨-, hx⟩
  · exact hr
  · exact h j x hx

section
variable {K : Replica σ → Prop} (hK : Lasting (σ := σ) { sender := K, writing := False })
include hK

/-- A write leaves what all replicas have, if the entry that the leader appends does. -/
theorem submit_everywhere {n : Network σ} (hw : n.Wired) (hn : n.Everywhere K) (i : Nat)
    (data : List UInt8)
    (hpush : ∀ r, n.replica? i = some r → r.leader = true → K (r.pushed data)) :
    (n.submit i data).network.Everywhere K := by
  have hspread : ∀ {r : Replica σ}, n.replica? i = some r → r.leader = true →
      (n.spread i r data).Everywhere K := fun {r} hr hl => by
    have hleads : (r.pushed data).leader = true := hl
    exact (Evolves.receive _ (hpush r hr hl) hleads r.term (n.reachable r)).everywhere hK
      (hn.put (hpush r hr hl) i)
  have happlied : ∀ {r r' : Replica σ} {ans : Except Error Unit}, n.replica? i = some r →
      r.leader = true → (r.pushed data).applyUpTo (r.pushed data).log.length = (r', ans) →
      K r' ∧ r'.leader = true := by
    intro r r' ans hr hl e
    have hr' : r' = ((r.pushed data).applyUpTo (r.pushed data).log.length).1 := by rw [e]
    subst hr'
    exact ⟨hK (.apply _) (hpush r hr hl), (applyUpTo_leader ..).trans hl⟩
  have hc := submit_write hw i data
  generalize (n.submit i data).network = m, (n.submit i data).answer = ans at hc ⊢
  cases hc with
  | refused e => exact hn
  | conceded hr hl hnewer =>
    exact hn.put (hK (.depose (Nat.le_of_lt hnewer) hl) (hn i _ (replica?_eq_some.mp hr).1)) i
  | unacknowledged hr hwr => exact hspread hr hwr.leads
  | failed hr hwr ha hf => exact (hspread hr hwr.leads).put (happlied hr hwr.leads hf).1 i
  | @committed r r' hr hwr ha hc =>
    obtain ⟨hkept, hleads⟩ := happlied hr hwr.leads hc
    exact (Evolves.receive _ hkept hleads r.term (n.reachable r)).everywhere hK
      ((hspread hr hwr.leads).put hkept i)

theorem step_everywhere_of_pushed {n : Network σ} (hw : n.Wired) (hn : n.Everywhere K) (op : Op σ)
    (hnew : ∀ id address machine, op = .register id address machine → K (fresh id address machine))
    (hpush : ∀ i data r, op = .submit i data → n.replica? i = some r → r.leader = true →
      K (r.pushed data)) : (n.step op).network.Everywhere K := by
  by_cases hop : op.Obeys { sender := K, writing := False }
  · exact step_everywhere hw hK hn hop hnew
  · cases op with
    | submit i data => exact submit_everywhere hK hw hn i data fun r => hpush i data r rfl
    | _ => exact absurd trivial hop

/-- What everything but a write keeps, all replicas have if every entry that is written keeps it too. -/
theorem run_everywhere_of_pushed {n : Network σ} (hw : n.Wired) (hn : n.Everywhere K)
    {ops : List (Op σ)}
    (hnew : ∀ id address machine, .register id address machine ∈ ops → K (fresh id address machine))
    (hpush : ∀ i data r, .submit i data ∈ ops → K r → K (r.pushed data)) :
    (n.run ops).Everywhere K := by
  induction ops generalizing n with
  | nil => exact hn
  | cons op ops ih =>
    have hfirst : (n.step op).network.Everywhere K :=
      step_everywhere_of_pushed hK hw hn op
        (fun id address machine h => hnew id address machine (h ▸ List.mem_cons_self ..))
        fun i data r h hr _ =>
          hpush i data r (h ▸ List.mem_cons_self ..) (hn i r (replica?_eq_some.mp hr).1)
    exact ih (wired_step hw op) hfirst
      (fun id address machine h => hnew id address machine (List.mem_cons_of_mem _ h))
      fun i data r h => hpush i data r (List.mem_cons_of_mem _ h)

end

/-! ## Later -/

omit [StateMachine σ] in
theorem Op.obeys_sender (op : Op σ) (P : Replica σ → Prop) : op.Obeys { sender := P } := by
  cases op <;> trivial

theorem step_later {n : Network σ} (hw : n.Wired) (op : Op σ) {j : Nat} {r : Replica σ}
    (hr : n.replicas[j]? = some r) :
    ∃ r', (n.step op).network.replicas[j]? = some r' ∧ Becomes {} r r' := by
  rcases step_evolves hw (fun _ _ => trivial) (fun _ _ _ => trivial) (op.obeys_sender _) with
    h | ⟨_, _, _, -, e⟩
  · exact h.becomes j r hr
  · rw [e, List.getElem?_append_left (List.getElem?_eq_some_iff.mp hr).1]
    exact ⟨r, hr, .refl⟩

/-- A replica lasts, and changes. -/
theorem run_later {n : Network σ} (hw : n.Wired) (ops : List (Op σ)) {j : Nat} {r : Replica σ}
    (hr : n.replicas[j]? = some r) :
    ∃ r', (n.run ops).replicas[j]? = some r' ∧ Becomes {} r r' := by
  induction ops generalizing n r with
  | nil => exact ⟨r, hr, .refl⟩
  | cons op ops ih =>
    obtain ⟨x, hx, hb⟩ := step_later hw op hr
    obtain ⟨y, hy, hb'⟩ := ih (wired_step hw op) hx
    exact ⟨y, hy, hb.trans hb'⟩

end Network

end ReplicatedTable.Raft
