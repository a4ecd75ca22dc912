import ReplicatedTable.Proofs.Raft.Access
import ReplicatedTable.Proofs.Raft.Adoption
import ReplicatedTable.Proofs.Raft.Candidacy

/-!
# The messages of an operation

A leader hands its voters or its entries to one peer after another, and each peer has the message as the
messages before it have left that peer. `Sends` lists what the operations send. The record that an operation
leaves of refusals is the list of the answers that were refusals (`mem_refusals_iff`), so that what holds of
all messages holds of all that is on record.

What every change keeps, the two ends of every message have (`Sends.both`). They are within their bounds, and
the peer runs, as it was found at an address to which only a replica that runs is registered. Hence in no run
does a peer answer that it is down, or that its log does not match (`exchange_sound`).
-/
namespace ReplicatedTable.Raft

variable {σ : Type}

/-! ## Messages -/

/-- What a leader hands to a peer: its voters, or its entries at a term. -/
inductive Content where
  | voters
  | entries (term : Nat)

/-- A message, with the replica that sends it and the one that gets it as they are then. -/
structure Message (σ : Type) where
  leader : Replica σ
  peer : Replica σ
  content : Content

/-- Why a message was refused. -/
def Reject.of? {α : Type} : Except Reject α → Option Reject
  | .ok _ => none
  | .error reject => some reject

theorem Reject.of?_eq_some {α : Type} {answer : Except Reject α} {reject : Reject} :
    Reject.of? answer = some reject ↔ answer = .error reject := by
  cases answer <;> simp [Reject.of?]

theorem Reject.mem_filterMap_of? {α β : Type} {answer : β → Except Reject α} {bs : List β}
    {reject : Reject} : reject ∈ bs.filterMap (fun b => Reject.of? (answer b)) ↔
      ∃ b ∈ bs, answer b = .error reject := by
  simp only [List.mem_filterMap, Reject.of?_eq_some]

section
variable [StateMachine σ]

/-- What the peer answers. -/
def Message.answer (m : Message σ) : Except Reject Unit :=
  match m.content with
  | .voters =>
    (m.peer.acceptVoters m.leader.term m.leader.address m.leader.voters m.leader.votersIndex).2
  | .entries term => (m.peer.receive m.leader term).2.map fun _ => ()

theorem Message.answer_entries {leader peer : Replica σ} {term : Nat} {reject : Reject} :
    Message.answer ⟨leader, peer, .entries term⟩ = .error reject ↔
      (peer.receive leader term).2 = .error reject := by
  show (peer.receive leader term).2.map (fun _ => ()) = .error reject ↔ _
  cases (peer.receive leader term).2 <;> simp [Except.map]

/-- The peer of a message runs, neither replica has applied more than its log holds, the answer is not that the
peer is down or that its log does not match, and entries are cut out of the one log and put into the other at
places that these have. -/
structure Message.Proper (m : Message σ) : Prop where
  running : m.peer.stopped = false
  bounded : m.leader.Bounded ∧ m.peer.Bounded
  answered : m.answer ≠ .error .down ∧ ∀ index, m.answer ≠ .error (.mismatch index)
  within : ∀ term, m.content = .entries term →
    m.peer.receiveWithin? m.leader term = some (m.peer.receive m.leader term)

theorem Message.proper {m : Message σ} (hs : m.peer.stopped = false) (hl : m.leader.Bounded)
    (hp : m.peer.Bounded) : m.Proper := by
  refine ⟨hs, ⟨hl, hp⟩, ?_, fun term _ => Replica.receiveWithin?_eq ..⟩
  obtain ⟨leader, peer, content⟩ := m
  cases content with
  | voters =>
    show (peer.acceptVoters leader.term leader.address leader.voters leader.votersIndex).2 ≠ _ ∧
      ∀ index, (peer.acceptVoters leader.term leader.address leader.voters leader.votersIndex).2 ≠ _
    unfold Replica.acceptVoters
    rw [Replica.observe_eq, if_neg (by simpa using hs)]
    by_cases ht : leader.term < peer.term
    · rw [if_pos ht]
      exact ⟨nofun, nofun⟩
    · rw [if_neg ht]
      exact ⟨nofun, nofun⟩
  | entries term =>
    have hc := Replica.receive_receipt peer leader term hp
    simp only [Ne, Message.answer_entries]
    generalize (peer.receive leader term).1 = f, (peer.receive leader term).2 = answer at hc ⊢
    cases hc with
    | down hdown =>
      have hrun : peer.stopped = false := hs
      rw [hdown] at hrun
      cases hrun
    | taken => split <;> exact ⟨nofun, nofun⟩
    | _ => exact ⟨nofun, nofun⟩

/-- A replica that was shut down would answer that it is down, if it were still found. -/
example : Message.answer ⟨Replica.fresh "n1" "a1" ({} : Recorder),
    (Replica.fresh "n2" "a2" {}).ended, .voters⟩ = .error .down := rfl

end

namespace Network
open Replica

/-! ## Whom a round comes to -/

/-- The replicas that `mapAt` changes, each as it is when its turn comes. -/
def visits (n : Network σ) (f : Replica σ → Replica σ) : List Nat → List (Replica σ)
  | [] => []
  | j :: js =>
    match n.replica? j with
    | none => visits n f js
    | some r => r :: visits (n.put j (f r)) f js

section
variable {n : Network σ} {f : Replica σ → Replica σ} {i j : Nat} {js ks : List Nat} {r x : Replica σ}
  {P : Replica σ → Prop}

theorem visits_cons_none (h : n.replica? j = none) : n.visits f (j :: js) = n.visits f js := by
  simp only [visits, h]

theorem visits_cons_some (h : n.replica? j = some r) :
    n.visits f (j :: js) = r :: (n.put j (f r)).visits f js := by
  simp only [visits, h]

/-- The replicas with these numbers have a property, but for those that are gone. -/
def Among (n : Network σ) (js : List Nat) (P : Replica σ → Prop) : Prop :=
  ∀ j ∈ js, ∀ r, n.replica? j = some r → P r

theorem Among.put (h : n.Among js P) (hx : P x) : (n.put i x).Among js P := by
  intro j hj r hr
  obtain ⟨hat, hd⟩ := replica?_eq_some.mp hr
  rcases put_getElem?_cases x hat with ⟨-, rfl⟩ | ⟨-, hat⟩
  · exact hx
  · exact h j hj r (replica?_eq_some.mpr ⟨hat, hd⟩)

theorem Among.put_ne (h : n.Among js P) (hi : i ∉ js) : (n.put i x).Among js P := by
  intro j hj r hr
  have hij : i ≠ j := fun e => hi (e ▸ hj)
  exact h j hj r ((replica?_put_ne x hij).symm.trans hr)

theorem Among.mapAt (h : n.Among js P) (hf : ∀ r, P r → P (f r)) : (n.mapAt f js).Among js P :=
  mapAt_induction (P := fun m => m.Among js P)
    (fun _ j r hj hm hr => hm.put (hf r (hm j hj r hr))) h

/-- What every change of a round keeps, every replica has when the round comes to it. -/
theorem Among.visits (hf : ∀ r, P r → P (f r)) : ∀ {js : List Nat} {n : Network σ}, n.Among js P →
    ∀ r ∈ n.visits f js, P r
  | [], _, _, r, hr => absurd hr List.not_mem_nil
  | j :: js, n, h, r, hr => by
    have htail : n.Among js P := fun k hk => h k (List.mem_cons_of_mem j hk)
    cases hx : n.replica? j with
    | none =>
      rw [visits_cons_none hx] at hr
      exact Among.visits hf htail r hr
    | some x =>
      rw [visits_cons_some hx] at hr
      have hPx := h j (List.mem_cons_self ..) x hx
      rcases List.mem_cons.mp hr with rfl | hr
      · exact hPx
      · exact Among.visits hf (htail.put (hf x hPx)) r hr

/-- Somebody holds each of the replicas with these numbers. -/
def Held (n : Network σ) (js : List Nat) : Prop := ∀ j ∈ js, ∃ r, n.replica? j = some r

theorem held_reachable (n : Network σ) (r : Replica σ) : n.Held (n.reachable r) := by
  intro j hj
  obtain ⟨_, _, -, -, hp⟩ := mem_reachable.mp hj
  exact (peer?_eq_some.mp hp).2.2.2

theorem Held.put (h : n.Held js) (hd : x.dropped = false) : (n.put i x).Held js := by
  intro j hj
  obtain ⟨r, hr⟩ := h j hj
  by_cases hij : i = j
  · subst hij
    exact ⟨x, replica?_put_self x hr hd⟩
  · exact ⟨r, (replica?_put_ne x hij).trans hr⟩

theorem Held.mapAt (h : n.Held js) (hd : ∀ r, (f r).dropped = r.dropped) : (n.mapAt f ks).Held js :=
  mapAt_induction (P := fun m => m.Held js)
    (fun _ _ r _ hm hr => hm.put ((hd r).trans (replica?_eq_some.mp hr).2)) h

end

variable [StateMachine σ]

/-! ## The record of a round -/

/-- The peers that a leader turns to one after another, each as it is then. -/
abbrev hearers (n : Network σ) (leader : Replica σ) (term : Nat) (js : List Nat) : List (Replica σ) :=
  n.visits (fun f => (f.receive leader term).1) js

/-- Why those of them refuse the leader's entries that do. -/
def rejects (n : Network σ) (leader : Replica σ) (term : Nat) (js : List Nat) : List Reject :=
  (n.hearers leader term js).filterMap fun f => Reject.of? (f.receive leader term).2

section
variable {i term : Nat} {leader : Replica σ}

theorem mem_rejects {n : Network σ} {js : List Nat} {reject : Reject} :
    reject ∈ n.rejects leader term js ↔
      ∃ peer ∈ n.hearers leader term js, Message.answer ⟨leader, peer, .entries term⟩ = .error reject := by
  rw [rejects, Reject.mem_filterMap_of?]
  simp only [Message.answer_entries]

theorem rejects_cons {n : Network σ} {j : Nat} {js : List Nat} {f : Replica σ} (hf : n.replica? j = some f) :
    n.rejects leader term (j :: js) =
      match (f.receive leader term).2 with
      | .ok _ => (n.put j (f.receive leader term).1).rejects leader term js
      | .error reject => reject :: (n.put j (f.receive leader term).1).rejects leader term js := by
  rw [rejects, hearers, visits_cons_some hf, List.filterMap_cons]
  cases (f.receive leader term).2 <;> rfl

theorem deliver_refusals (activity : Activity) : ∀ {js : List Nat} {n : Network σ},
    n.replica? i = some leader → i ∉ js → n.Held js →
    (n.deliver activity i term js).2.map Refusal.reject = n.rejects leader term js
  | [], _, _, _, _ => rfl
  | j :: js, n, hi, hjs, hheld => by
    rw [List.mem_cons, not_or] at hjs
    obtain ⟨f, hf⟩ := hheld j (List.mem_cons_self ..)
    have htail : n.Held js := fun k hk => hheld k (List.mem_cons_of_mem j hk)
    have ih := deliver_refusals activity
      ((replica?_put_ne (f.receive leader term).1 (Ne.symm hjs.1)).trans hi) hjs.2
      (htail.put ((receive_dropped f leader term).trans (replica?_eq_some.mp hf).2))
    unfold deliver
    rw [sync_eq hi, hf, rejects_cons hf, ← ih]
    dsimp only
    cases (f.receive leader term).2 <;> rfl

theorem deliverVoters_refusals : ∀ {js : List Nat} {n : Network σ},
    n.replica? i = some leader → i ∉ js →
    (n.deliverVoters i leader js).2.map Refusal.reject =
      (n.visits (adopt leader) js).filterMap fun f => Reject.of? (adoption leader f)
  | [], _, _, _ => rfl
  | j :: js, n, hi, hjs => by
    rw [List.mem_cons, not_or] at hjs
    cases hf : n.replica? j with
    | none =>
      rw [deliverVoters_cons_none hf, visits_cons_none hf]
      exact deliverVoters_refusals hi hjs.2
    | some f =>
      have ih := deliverVoters_refusals
        ((replica?_put_ne (adopt leader f) (Ne.symm hjs.1)).trans hi) hjs.2
      rw [deliverVoters_cons_some hi hjs.1 hf, visits_cons_some hf, List.filterMap_cons, ← ih]
      cases adoption leader f <;> rfl

/-- Peers that are not ahead hear the first round of a write to its end. -/
theorem replicate_refusals : ∀ {js : List Nat} {n : Network σ},
    n.replica? i = some leader → i ∉ js → n.Held js → n.Among js (·.term ≤ term) →
    (n.replicate i term js).2.1.map Refusal.reject = n.rejects leader term js
  | [], _, _, _, _, _ => rfl
  | j :: js, n, hi, hjs, hheld, hterm => by
    rw [List.mem_cons, not_or] at hjs
    obtain ⟨f, hf⟩ := hheld j (List.mem_cons_self ..)
    have hft := hterm j (List.mem_cons_self ..) f hf
    have htail : n.Held js := fun k hk => hheld k (List.mem_cons_of_mem j hk)
    have httail : n.Among js (·.term ≤ term) := fun k hk => hterm k (List.mem_cons_of_mem j hk)
    have ih := replicate_refusals
      ((replica?_put_ne (f.receive leader term).1 (Ne.symm hjs.1)).trans hi) hjs.2
      (htail.put ((receive_dropped f leader term).trans (replica?_eq_some.mp hf).2))
      (httail.put (receive_term_le leader hft))
    unfold replicate
    rw [sync_eq hi, hf, rejects_cons hf, ← ih]
    have hstale := receive_ne_staleTerm hft leader
    dsimp only
    cases hans : (f.receive leader term).2 with
    | ok len => rfl
    | error reject =>
      cases reject with
      -- nobody breaks the round off
      | staleTerm newer => exact absurd hans (hstale newer)
      | _ => rfl

end

/-! ## What an operation sends -/

/-- An operation sends a message. -/
inductive Sends (n : Network σ) : Op σ → Message σ → Prop where
  | newLeader {i : Nat} {r peer : Replica σ} (hr : n.replica? i = some r) (h : n.Electable r)
    (hp : peer ∈ (n.put i (r.elected (n.nextTerm r))).hearers (r.elected (n.nextTerm r))
      (n.nextTerm r) (n.reachable r)) :
    Sends n (.campaign i) ⟨r.elected (n.nextTerm r), peer, .entries (n.nextTerm r)⟩
  | voters {i prev : Nat} {id address : String} {r peer : Replica σ}
    (h : n.Widens i r id address prev)
    (hp : peer ∈ (n.put i (r.widened id address)).visits (adopt (r.widened id address))
      (n.reachable (r.widened id address))) :
    Sends n (.addVoter i id address prev) ⟨r.widened id address, peer, .voters⟩
  | voterSync {i prev : Nat} {id address : String} {r peer peer' : Replica σ}
    (h : n.Widens i r id address prev)
    (hp : peer ∈ (n.put i (r.widened id address)).visits (adopt (r.widened id address))
      (n.reachable (r.widened id address)))
    (ha : peer.acceptVoters r.term r.address (r.widened id address).voters
      (r.widened id address).votersIndex = (peer', .ok ())) :
    Sends n (.addVoter i id address prev) ⟨r.widened id address, peer', .entries r.term⟩
  | entry {i : Nat} {data : List UInt8} {r peer : Replica σ} (hr : n.replica? i = some r)
    (h : n.Writable r)
    (hp : peer ∈ (n.put i (r.pushed data)).hearers (r.pushed data) r.term (n.reachable r)) :
    Sends n (.submit i data) ⟨r.pushed data, peer, .entries r.term⟩
  | commit {i acks : Nat} {data : List UInt8} {r r' peer : Replica σ} (hr : n.replica? i = some r)
    (h : n.Writable r) (hacks : n.acknowledged i r data = .ok acks)
    (hmaj : majority r.voters ≤ acks + 1)
    (hc : (r.pushed data).applyUpTo (r.pushed data).log.length = (r', .ok ()))
    (hp : peer ∈ ((n.spread i r data).put i r').hearers r' r.term (n.reachable r)) :
    Sends n (.submit i data) ⟨r', peer, .entries r.term⟩

section
variable {K : Replica σ → Prop} (hK : Lasting (σ := σ) { sender := K, writing := False })
  {leader : Replica σ} (hl : K leader) (hlead : leader.leader = true)
include hK hl hlead

theorem receive_kept (term : Nat) (f : Replica σ) (hf : K f ∧ f.stopped = false) :
    K (f.receive leader term).1 ∧ (f.receive leader term).1.stopped = false :=
  ⟨hK (.receive hl hlead term) hf.1, (receive_stopped ..).trans hf.2⟩

theorem acceptVoters_kept (f : Replica σ) (hf : K f ∧ f.stopped = false) :
    K (f.acceptVoters leader.term leader.address leader.voters leader.votersIndex).1 ∧
      (f.acceptVoters leader.term leader.address leader.voters leader.votersIndex).1.stopped = false :=
  ⟨hK (.acceptVoters hl hlead) hf.1, (acceptVoters_stopped ..).trans hf.2⟩

theorem adopt_kept (f : Replica σ) (hf : K f ∧ f.stopped = false) :
    K (adopt leader f) ∧ (adopt leader f).stopped = false := by
  obtain ⟨x, rfl, e | e⟩ := adopt_eq f leader <;> rw [e]
  · exact acceptVoters_kept hK hl hlead f hf
  · exact receive_kept hK hl hlead _ _ (acceptVoters_kept hK hl hlead f hf)

end

/-- What everything but a write keeps, and what is written too, both ends of a message have; and the peer
runs. -/
theorem Sends.both {n : Network σ} {op : Op σ} {m : Message σ} (h : n.Sends op m) (hw : n.Wired)
    {K : Replica σ → Prop} (hK : Lasting (σ := σ) { sender := K, writing := False })
    (hn : n.Everywhere K)
    (hpush : ∀ i data r, op = .submit i data → n.replica? i = some r → r.leader = true →
      K (r.pushed data)) : K m.leader ∧ K m.peer ∧ m.peer.stopped = false := by
  have hpeers : ∀ r, n.Among (n.reachable r) fun f => K f ∧ f.stopped = false :=
    fun r j hj f hf => ⟨hn j f (replica?_eq_some.mp hf).1, hw.running hj hf⟩
  cases h with
  | @newLeader i r peer hr h hp =>
    have hat := (replica?_eq_some.mp hr).1
    have hterm : r.term < n.nextTerm r := by unfold nextTerm; omega
    have hlead := hK (.elect hterm h.voter h.running) (hn i r hat)
    exact ⟨hlead, ((hpeers r).put_ne (hw.not_mem_reachable hat rfl)).visits
      (receive_kept hK hlead (setLeader_leader ..) _) peer hp⟩
  | @voters i prev id address r peer h hp =>
    have hat := (replica?_eq_some.mp h.here).1
    have hlead : K (r.widened id address) := hK (.widen trivial h.leads) (hn i r hat)
    exact ⟨hlead, ((hpeers _).put_ne (h.not_mem_reachable hw)).visits
      (adopt_kept hK hlead h.leads) peer hp⟩
  | @voterSync i prev id address r peer peer' h hp ha =>
    have hat := (replica?_eq_some.mp h.here).1
    have hlead : K (r.widened id address) := hK (.widen trivial h.leads) (hn i r hat)
    have hpeer := ((hpeers _).put_ne (h.not_mem_reachable hw)).visits
      (adopt_kept hK hlead h.leads) peer hp
    have haccept := acceptVoters_kept hK hlead h.leads peer hpeer
    rw [show peer.acceptVoters (r.widened id address).term (r.widened id address).address
      (r.widened id address).voters (r.widened id address).votersIndex = _ from ha] at haccept
    exact ⟨hlead, haccept⟩
  | @entry i data r peer hr h hp =>
    have hat := (replica?_eq_some.mp hr).1
    have hlead := hpush i data r rfl hr h.leads
    exact ⟨hlead, ((hpeers r).put_ne (hw.not_mem_reachable hat rfl)).visits
      (receive_kept hK hlead h.leads _) peer hp⟩
  | @commit i acks data r r' peer hr h hacks hmaj hc hp =>
    have hnot := hw.not_mem_reachable (replica?_eq_some.mp hr).1 rfl
    have hlead := hpush i data r rfl hr h.leads
    have hr' : r' = ((r.pushed data).applyUpTo (r.pushed data).log.length).1 := by rw [hc]
    have hlead' : K r' := hr' ▸ hK (.apply _) hlead
    have hleads' : r'.leader = true := by rw [hr', applyUpTo_leader]; exact h.leads
    -- the second round finds the peers as the first one has left them
    have hspread := ((hpeers r).put_ne (x := r.pushed data) hnot).mapAt
      (receive_kept hK hlead h.leads r.term)
    exact ⟨hlead', (hspread.put_ne hnot).visits (receive_kept hK hlead' hleads' _) peer hp⟩

/-! ## What is on record -/

section
variable {n : Network σ} {i : Nat} {r : Replica σ}

theorem campaign_refusals (hw : n.Wired) (hr : n.replica? i = some r) (h : n.Electable r) :
    (n.campaign i).refusals.map Refusal.reject =
      (n.put i (r.elected (n.nextTerm r))).rejects (r.elected (n.nextTerm r)) (n.nextTerm r)
        (n.reachable r) := by
  obtain ⟨hat, hd⟩ := replica?_eq_some.mp hr
  have hlen := List.length_filter_le (n.grants r) (n.reachable r)
  have hvotes := h.votes
  have hd' : (r.elected (n.nextTerm r)).dropped = false := (setLeader_dropped ..).trans hd
  rw [← deliver_refusals .newLeader (replica?_put_self _ hr hd') (hw.not_mem_reachable hat rfl)
    ((held_reachable n r).put hd')]
  unfold campaign withReplica
  rw [hr]
  dsimp only
  rw [if_neg (by simp [h.running]), if_neg (by simp [h.voter]), if_neg (by omega), if_neg (by omega)]
  rfl

omit [StateMachine σ] in
theorem newerTerm?_eq_none {term : Nat} {js : List Nat} (h : n.Among js (·.term ≤ term)) :
    n.newerTerm? term js = none := by
  cases hnewer : n.newerTerm? term js with
  | none => rfl
  | some newer =>
    obtain ⟨hlt, j, hj, f, hf, rfl⟩ := newerTerm?_eq_some hnewer
    exact absurd (h j hj f hf) (Nat.not_le_of_lt hlt)

theorem submit_eq (hr : n.replica? i = some r) (h : n.Writable r) {data : List UInt8} {m : Network σ}
    {refusals : List Refusal} {acks : Nat} (e : (n.put i (r.pushed data)).replicate i r.term
      (n.reachable r) = (m, refusals, .ok acks)) :
    n.submit i data =
      if acks + 1 < majority r.voters then
        ⟨m, .error (.consensus (.notAcknowledged (r.pushed data).log.length)), refusals⟩
      else m.commit i r.term (r.pushed data).log.length (n.reachable r) refusals := by
  have hquorum := h.quorum
  unfold submit withReplica
  rw [hr]
  dsimp only
  split
  · rename_i hs
    rw [h.running] at hs
    cases hs
  · rename_i hh
    rw [h.sound] at hh
    cases hh
  · rename_i hl
    rw [h.leads] at hl
    cases hl
  · rw [if_neg (by omega), newerTerm?_eq_none h.newest]
    dsimp only
    rw [show (n.put i { r with log := r.log ++ [⟨r.term, data⟩] }).replicate i r.term
      (n.reachable r) = (m, refusals, .ok acks) from e]
    rfl

/-- The record of a write that is tried: the refusals of the first round, and those of the second one, if there
is one. -/
theorem submit_refusals (hw : n.Wired) (hr : n.replica? i = some r) (h : n.Writable r)
    (data : List UInt8) :
    ((n.submit i data).refusals.map Refusal.reject =
          (n.put i (r.pushed data)).rejects (r.pushed data) r.term (n.reachable r) ∧
        ∀ acks r', n.acknowledged i r data = .ok acks → majority r.voters ≤ acks + 1 →
          (r.pushed data).applyUpTo (r.pushed data).log.length ≠ (r', .ok ())) ∨
      ∃ acks r', n.acknowledged i r data = .ok acks ∧ majority r.voters ≤ acks + 1 ∧
        (r.pushed data).applyUpTo (r.pushed data).log.length = (r', .ok ()) ∧
        (n.submit i data).refusals.map Refusal.reject =
          (n.put i (r.pushed data)).rejects (r.pushed data) r.term (n.reachable r) ++
            ((n.spread i r data).put i r').rejects r' r.term (n.reachable r) := by
  obtain ⟨hat, hd⟩ := replica?_eq_some.mp hr
  have hnot : i ∉ n.reachable r := hw.not_mem_reachable hat rfl
  have hself : (n.put i (r.pushed data)).replica? i = some (r.pushed data) := replica?_put_self _ hr hd
  have hterms : (n.put i (r.pushed data)).Among (n.reachable r) (·.term ≤ r.term) :=
    Among.put_ne h.newest hnot
  have hfirst := replicate_refusals hself hnot ((held_reachable n r).put hd) hterms
  obtain ⟨refusals, acks, e, -⟩ := replicate_eq hself hnot hterms
  have hacks : n.acknowledged i r data = .ok acks := by rw [acknowledged, e]
  rw [e] at hfirst
  rw [← hfirst, submit_eq hr h e]
  by_cases hshort : acks + 1 < majority r.voters
  · rw [if_pos hshort]
    refine .inl ⟨rfl, fun acks' r' hacks' hmaj => ?_⟩
    rw [hacks] at hacks'
    cases hacks'
    omega
  rw [if_neg hshort]
  have hlead : (n.spread i r data).replica? i = some (r.pushed data) := replica?_spread hw hr data
  unfold commit
  rw [show (n.put i (r.pushed data)).mapAt _ _ = n.spread i r data from rfl, hlead]
  dsimp only
  cases hap : (r.pushed data).applyUpTo (r.pushed data).log.length with
  | mk r' answer =>
    cases answer with
    | error err =>
      -- the leader's own machine has failed, and there is no second round
      exact .inl ⟨rfl, fun _ _ _ _ h => by cases h⟩
    | ok u =>
      have hnext := replica?_applied hw hr hap
      have hheld : (n.spread i r data).Held (n.reachable r) :=
        Held.mapAt (Held.put (x := r.pushed data) (held_reachable n r) hd)
          (receive_dropped · (r.pushed data) r.term)
      refine .inr ⟨acks, r', hacks, by omega, rfl, ?_⟩
      rw [← deliver_refusals .commit hnext hnot (hheld.put (replica?_eq_some.mp hnext).2)]
      exact List.map_append

theorem campaign_idle (hw : n.Wired) (h : ∀ r, n.replica? i = some r → ¬n.Electable r) :
    (n.campaign i).refusals = [] := by
  have hc := campaign_election hw i
  cases hans : (n.campaign i).answer with
  | error e => rw [campaign_refused hans]; rfl
  | ok term =>
    rw [hans] at hc
    generalize (n.campaign i).network = m at hc
    cases hc with
    | won hr he => exact absurd he (h _ hr)

theorem addVoter_idle {id address : String} {prev : Nat} (h : ∀ r, ¬n.Widens i r id address prev) :
    (n.addVoter i id address prev).refusals = [] := by
  unfold addVoter withReplica
  cases hr : n.replica? i with
  | none => rfl
  | some r =>
    dsimp only
    split
    · rfl
    split
    · rfl
    split
    · rfl
    split
    · rfl
    · rename_i hs hl hp hv
      exact absurd ⟨hr, by simpa using hs, by simpa using hl, by omega, hv⟩ (h r)

theorem submit_idle {data : List UInt8} (h : ∀ r, n.replica? i = some r → ¬n.Writable r) :
    (n.submit i data).refusals = [] := by
  unfold submit withReplica
  cases hr : n.replica? i with
  | none => rfl
  | some r =>
    dsimp only
    split
    · rfl
    · rfl
    · rfl
    · rename_i hs hh hl
      split
      · rfl
      split
      · unfold concede
        rw [hr]
      · rename_i hq hn
        exact absurd ⟨hs, hh, hl, by omega, fun j hj f hf => le_of_newerTerm?_eq_none hn hj hf⟩ (h r hr)

theorem mem_campaign_refusals (hw : n.Wired) {reject : Reject} :
    reject ∈ (n.campaign i).refusals.map Refusal.reject ↔
      ∃ m, n.Sends (.campaign i) m ∧ m.answer = .error reject := by
  constructor
  · intro hmem
    by_cases h : ∃ r, n.replica? i = some r ∧ n.Electable r
    · obtain ⟨r, hr, h⟩ := h
      rw [campaign_refusals hw hr h, mem_rejects] at hmem
      obtain ⟨peer, hp, hans⟩ := hmem
      exact ⟨_, .newLeader hr h hp, hans⟩
    · rw [campaign_idle hw fun r hr he => h ⟨r, hr, he⟩] at hmem
      exact absurd hmem List.not_mem_nil
  · rintro ⟨m, hm, hans⟩
    cases hm with
    | newLeader hr h hp =>
      rw [campaign_refusals hw hr h, mem_rejects]
      exact ⟨_, hp, hans⟩

theorem mem_addVoter_refusals {id address : String} {prev : Nat} (hw : n.Wired) {reject : Reject} :
    reject ∈ (n.addVoter i id address prev).refusals.map Refusal.reject ↔
      ∃ m, n.Sends (.addVoter i id address prev) m ∧ m.answer = .error reject := by
  have hrecord : ∀ {r}, (h : n.Widens i r id address prev) →
      (n.addVoter i id address prev).refusals.map Refusal.reject =
        ((n.put i (r.widened id address)).visits (adopt (r.widened id address))
          (n.reachable (r.widened id address))).filterMap
            fun f => Reject.of? (adoption (r.widened id address) f) := fun h => by
    rw [h.addVoter_eq]
    exact deliverVoters_refusals h.put_self (h.not_mem_reachable hw)
  constructor
  · intro hmem
    by_cases h : ∃ r, n.Widens i r id address prev
    · obtain ⟨r, h⟩ := h
      rw [hrecord h, Reject.mem_filterMap_of?] at hmem
      obtain ⟨peer, hp, hans⟩ := hmem
      rw [adoption] at hans
      split at hans
      · rename_i peer' ha
        exact ⟨_, .voterSync h hp ha, hans⟩
      · rename_i peer' reject' ha
        cases hans
        exact ⟨_, .voters h hp, congrArg Prod.snd ha⟩
    · rw [addVoter_idle fun r hr => h ⟨r, hr⟩] at hmem
      exact absurd hmem List.not_mem_nil
  · rintro ⟨m, hm, hans⟩
    cases hm with
    | @voters _ _ _ _ r peer h hp =>
      rw [hrecord h, Reject.mem_filterMap_of?]
      refine ⟨peer, hp, ?_⟩
      have ha : (peer.acceptVoters (r.widened id address).term (r.widened id address).address
        (r.widened id address).voters (r.widened id address).votersIndex).2 = .error reject := hans
      unfold adoption
      split <;> rename_i e <;> rw [e] at ha <;> cases ha
      rfl
    | @voterSync _ _ _ _ r peer peer' h hp ha =>
      rw [hrecord h, Reject.mem_filterMap_of?]
      refine ⟨peer, hp, ?_⟩
      have ha' : peer.acceptVoters (r.widened id address).term (r.widened id address).address
        (r.widened id address).voters (r.widened id address).votersIndex = (peer', .ok ()) := ha
      unfold adoption
      rw [ha']
      exact hans

theorem mem_submit_refusals {data : List UInt8} (hw : n.Wired) {reject : Reject} :
    reject ∈ (n.submit i data).refusals.map Refusal.reject ↔
      ∃ m, n.Sends (.submit i data) m ∧ m.answer = .error reject := by
  constructor
  · intro hmem
    by_cases h : ∃ r, n.replica? i = some r ∧ n.Writable r
    · obtain ⟨r, hr, h⟩ := h
      rcases submit_refusals hw hr h data with ⟨e, -⟩ | ⟨acks, r', hacks, hmaj, hap, e⟩
      · rw [e, mem_rejects] at hmem
        obtain ⟨peer, hp, hans⟩ := hmem
        exact ⟨_, .entry hr h hp, hans⟩
      · rw [e, List.mem_append, mem_rejects, mem_rejects] at hmem
        rcases hmem with ⟨peer, hp, hans⟩ | ⟨peer, hp, hans⟩
        · exact ⟨_, .entry hr h hp, hans⟩
        · exact ⟨_, .commit hr h hacks hmaj hap hp, hans⟩
    · rw [submit_idle fun r hr he => h ⟨r, hr, he⟩] at hmem
      exact absurd hmem List.not_mem_nil
  · rintro ⟨m, hm, hans⟩
    cases hm with
    | entry hr h hp =>
      have hfirst := mem_rejects.mpr ⟨_, hp, hans⟩
      rcases submit_refusals hw hr h data with ⟨e, -⟩ | ⟨acks, r', -, -, -, e⟩ <;> rw [e]
      · exact hfirst
      · exact List.mem_append_left _ hfirst
    | commit hr h hacks hmaj hc hp =>
      have hsecond := mem_rejects.mpr ⟨_, hp, hans⟩
      rcases submit_refusals hw hr h data with ⟨-, hno⟩ | ⟨acks', x, -, -, hx, e⟩
      · exact absurd hc (hno _ _ hacks hmaj)
      · rw [hc] at hx
        cases hx
        rw [e]
        exact List.mem_append_right _ hsecond

end

/-- What is on record of an operation is what peers have answered to its messages. -/
theorem mem_refusals_iff {n : Network σ} (hw : n.Wired) (op : Op σ) (reject : Reject) :
    reject ∈ (n.step op).refusals.map Refusal.reject ↔
      ∃ m, n.Sends op m ∧ m.answer = .error reject := by
  have hsilent : ∀ op : Op σ, (n.step op).refusals = [] → (∀ m, ¬n.Sends op m) →
      (reject ∈ (n.step op).refusals.map Refusal.reject ↔
        ∃ m, n.Sends op m ∧ m.answer = .error reject) := by
    intro op e hno
    rw [e]
    exact ⟨fun hmem => absurd hmem List.not_mem_nil, fun ⟨m, hm, _⟩ => absurd hm (hno m)⟩
  cases op with
  | campaign i => exact mem_campaign_refusals hw
  | addVoter i id address prev => exact mem_addVoter_refusals hw
  | submit i data => exact mem_submit_refusals hw
  | bootstrap i =>
    refine hsilent (.bootstrap i) ?_ fun m hm => by cases hm
    show (n.bootstrap i).refusals = []
    unfold bootstrap withReplica
    cases n.replica? i with
    | none => rfl
    | some r => dsimp only; split <;> rfl
  | stepDown i =>
    refine hsilent (.stepDown i) ?_ fun m hm => by cases hm
    show (n.stepDown i).refusals = []
    unfold stepDown withReplica
    cases n.replica? i <;> rfl
  | shutdown i =>
    refine hsilent (.shutdown i) ?_ fun m hm => by cases hm
    show (n.shutdown i).refusals = []
    unfold shutdown withReplica
    cases n.replica? i with
    | none => rfl
    | some r => dsimp only; split <;> rfl
  | register | drop | isolate | heal => exact hsilent _ rfl fun m hm => by cases hm

/-! ## In every run -/

/-- Replicas that are held and run are registered, each at an address of its own, and nobody else is found. -/
structure Listed (n : Network σ) : Prop where
  registered : ∀ i r, n.replica? i = some r → r.stopped = false → n.registry[r.address]? = some i
  alone : ∀ i j r f, n.replica? i = some r → n.replica? j = some f → r.stopped = false →
    f.stopped = false → r.address = f.address → i = j
  found : ∀ source target j, n.peer? source target = some j →
    ∃ f, n.replica? j = some f ∧ f.address = target ∧ f.stopped = false

omit [StateMachine σ] in
theorem Wired.listing {n : Network σ} (hw : n.Wired) : n.Listed := by
  have hreg : ∀ i r, n.replica? i = some r → r.stopped = false → n.registry[r.address]? = some i :=
    fun i r hr hs => hw.listed i r (replica?_eq_some.mp hr).1 hs (replica?_eq_some.mp hr).2
  refine ⟨hreg, fun i j r f hr hf hrs hfs ha => ?_, fun source target j hp => ?_⟩
  · have hi := hreg i r hr hrs
    rw [ha, hreg j f hf hfs] at hi
    exact (Option.some.inj hi).symm
  · obtain ⟨-, -, -, f, hf⟩ := peer?_eq_some.mp hp
    exact ⟨f, hf, hw.of_peer? hp hf⟩

/-- In every run the replicas that are held and run are registered, each at an address of its own, and nobody
else is found; nobody has applied more than its log holds; every message is proper; no refusal on record says
that a peer is down or that its log does not match; and the leader of a write has every entry that it applies. -/
theorem exchange_sound (ops : List (Op σ)) :
    (run {} ops).Listed ∧ (run {} ops).Everywhere Replica.Bounded ∧
      (∀ op m, (run {} ops).Sends op m → m.Proper) ∧
      (∀ op, ∀ refusal ∈ ((run {} ops).step op).refusals,
        refusal.reject ≠ .down ∧ ∀ index, refusal.reject ≠ .mismatch index) ∧
      ∀ i r data, (run {} ops).replica? i = some r → (run {} ops).Writable r →
        ∃ leader, ((run {} ops).spread i r data).replica? i = some leader ∧
          leader.applyWithin? (r.pushed data).log.length =
            some (leader.applyUpTo (r.pushed data).log.length) := by
  have hw : (run {} ops).Wired := wired_run wired_empty ops
  have hb := run_bounded ops
  have hproper : ∀ op m, (run {} ops).Sends op m → m.Proper := fun op m h => by
    obtain ⟨hl, hp, hs⟩ := h.both hw (fun hc hb => (hc.lasts hb).bound) hb fun i data r _ hr _ =>
      (hb i r (replica?_eq_some.mp hr).1).pushed data
    exact Message.proper hs hl hp
  refine ⟨hw.listing, hb, hproper, fun op refusal h => ?_, fun i r data hr _ => ?_⟩
  · obtain ⟨m, hm, hans⟩ := (mem_refusals_iff hw op refusal.reject).mp (List.mem_map_of_mem h)
    obtain ⟨hdown, hmismatch⟩ := (hproper op m hm).answered
    exact ⟨fun e => hdown (e ▸ hans), fun index e => hmismatch index (e ▸ hans)⟩
  · exact ⟨_, replica?_spread hw hr data, Replica.applyWithin?_eq (Nat.le_refl _)⟩

end Network

end ReplicatedTable.Raft
