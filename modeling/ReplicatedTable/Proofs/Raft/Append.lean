import ReplicatedTable.Proofs.Raft.Replica
import ReplicatedTable.Raft.Recorder

/-!
# Taking a leader's entries

What a follower does with any message that brings entries, also one that no leader of its group would send.
The entries are put into the log one at a time (`placeAll`), which comes to the same as one cut
(`placeAll_eq`): nothing is dropped or added before the message is refused, and nothing of the old log is left
behind an entry that differs. `append_course` lists the courses of the whole call, and `append_whole` says
from them what each answer stands for.
-/
namespace ReplicatedTable.Raft

/-! ## The log -/

namespace Log

/-- Behind its first `pos`, a log has an entry of the same term as the one at place `k` of the others. -/
def SameTerm (log : Log) (pos : Nat) (es : Log) (k : Nat) : Prop :=
  (log[pos + k]?).map Entry.term = (es[k]?).map Entry.term

/-- Place `k` is the first at which entries put behind the first `pos` of a log are new to it: the log has none
there, or one of another term. -/
structure Parts (log : Log) (pos : Nat) (es : Log) (k : Nat) : Prop where
  bound : k < es.length
  before : ∀ j < k, SameTerm log pos es j
  differs : ¬SameTerm log pos es k

/-- What becomes of a log when entries are put behind its first `pos`: it has them all, or it is cut where they
part, and goes on with them. -/
inductive Spliced (log : Log) (pos : Nat) (es : Log) : Log → Prop where
  | held (h : ∀ k < es.length, SameTerm log pos es k) : Spliced log pos es log
  | cut {k : Nat} (h : Parts log pos es k) : Spliced log pos es (log.take (pos + k) ++ es.drop k)

/-- The courses that splicing can take. -/
inductive Splicing (log : Log) (applied pos : Nat) (es : Log) : Except Nat Log → Prop where
  | refused {k : Nat} (h : Parts log pos es k) (ha : pos + k < applied) :
    Splicing log applied pos es (.error (pos + k + 1))
  | done {log' : Log} (h : Spliced log pos es log') (hkeep : log'.take applied = log.take applied)
    (ha : applied ≤ log'.length) : Splicing log applied pos es (.ok log')

variable {log es : Log} {applied pos k : Nat} {e : Entry}

theorem sameTerm_zero : SameTerm log pos (e :: es) 0 ↔ (log[pos]?).map Entry.term = some e.term := Iff.rfl

theorem sameTerm_succ : SameTerm log pos (e :: es) (k + 1) ↔ SameTerm log (pos + 1) es k := by
  rw [SameTerm, SameTerm, List.getElem?_cons_succ, Nat.add_right_comm, Nat.add_assoc]

/-- An entry that the log has puts off by one where the rest parts from it. -/
theorem Parts.cons (h : Parts log (pos + 1) es k) (h0 : SameTerm log pos (e :: es) 0) :
    Parts log pos (e :: es) (k + 1) where
  bound := Nat.succ_lt_succ h.bound
  before
    | 0, _ => h0
    | j + 1, hj => sameTerm_succ.mpr (h.before j (Nat.lt_of_succ_lt_succ hj))
  differs hs := h.differs (sameTerm_succ.mp hs)

theorem Parts.head (h : ¬SameTerm log pos (e :: es) 0) : Parts log pos (e :: es) 0 :=
  ⟨Nat.succ_pos _, nofun, h⟩

theorem Spliced.cons {log' : Log} (h : Spliced log (pos + 1) es log')
    (h0 : SameTerm log pos (e :: es) 0) : Spliced log pos (e :: es) log' := by
  cases h with
  | held h =>
    refine .held fun k hk => ?_
    cases k with
    | zero => exact h0
    | succ k => exact sameTerm_succ.mpr (h k (Nat.lt_of_succ_lt_succ hk))
  | @cut k h =>
    have hcut := Spliced.cut (h.cons h0)
    rwa [← Nat.add_assoc, Nat.add_right_comm, List.drop_succ_cons] at hcut

/-- A cut that is not among the applied entries keeps them. -/
theorem Splicing.cut (happ : applied ≤ log.length) (h : Parts log pos es k) (ha : applied ≤ pos + k) :
    Splicing log applied pos es (.ok (log.take (pos + k) ++ es.drop k)) := by
  have hfront : applied ≤ (log.take (pos + k)).length := by rw [List.length_take]; omega
  refine .done (.cut h) ?_ (by rw [List.length_append]; omega)
  rw [List.take_append_of_le_length hfront, List.take_take, Nat.min_eq_left ha]

theorem splice_splicing (happ : applied ≤ log.length) : ∀ (es : Log) (pos : Nat),
    Splicing log applied pos es (splice log applied pos es)
  | [], pos => .done (.held nofun) rfl happ
  | e :: es, pos => by
    unfold splice
    split
    · rename_i hnone
      have hlen := List.getElem?_eq_none_iff.mp hnone
      have hparts : Parts log pos (e :: es) 0 := .head (by rw [sameTerm_zero, hnone]; nofun)
      simpa [List.take_of_length_le hlen] using Splicing.cut happ hparts (by omega)
    · rename_i old hold
      by_cases hterm : old.term = e.term
      · rw [if_pos hterm]
        have h0 : SameTerm log pos (e :: es) 0 := by
          rw [sameTerm_zero, hold, Option.map_some, hterm]
        have hrest := splice_splicing happ es (pos + 1)
        generalize splice log applied (pos + 1) es = answer at hrest ⊢
        cases hrest with
        | @refused k h ha =>
          rw [Nat.add_right_comm pos 1 k, Nat.add_assoc pos k 1]
          exact .refused (h.cons h0) (by omega)
        | done h hkeep ha => exact .done (h.cons h0) hkeep ha
      · rw [if_neg hterm]
        have hparts : Parts log pos (e :: es) 0 :=
          .head (by rw [sameTerm_zero, hold, Option.map_some, Option.some_inj]; exact hterm)
        split
        · rename_i ha
          exact .refused hparts ha
        · rename_i ha
          exact Splicing.cut happ hparts (by omega)

/-! ### One entry at a time -/

/-- Puts one entry behind the first `pos`: it is there, or it comes at the end, or it replaces all that is
behind. -/
def place (log : Log) (applied pos : Nat) (e : Entry) : Except Nat Log :=
  match log[pos]? with
  | none => .ok (log ++ [e])
  | some old =>
    if old.term = e.term then .ok log
    else if pos < applied then .error (pos + 1)
    else .ok (log.take pos ++ [e])

/-- Puts entries in one after the other, until one is refused. The log is given as it is then. -/
def placeAll (log : Log) (applied pos : Nat) : Log → Log × Except Nat Unit
  | [] => (log, .ok ())
  | e :: es =>
    match place log applied pos e with
    | .ok log => placeAll log applied (pos + 1) es
    | .error index => (log, .error index)

/-- At the end of a log nothing is in the way. -/
theorem placeAll_end (applied : Nat) : ∀ (es log : Log) {pos : Nat}, pos = log.length →
    placeAll log applied pos es = (log ++ es, .ok ())
  | [], log, _, _ => by rw [List.append_nil]; rfl
  | e :: es, log, pos, hpos => by
    have hnone : log[pos]? = none := List.getElem?_eq_none (Nat.le_of_eq hpos.symm)
    have hlast : pos + 1 = (log ++ [e]).length := by
      rw [List.length_append, List.length_singleton, hpos]
    have hrest := placeAll_end applied es (log ++ [e]) hlast
    simpa only [placeAll, place, hnone, List.append_assoc, List.singleton_append] using hrest

/-- Putting the entries in one at a time comes to one cut, and an entry that is refused finds the log as it
was. -/
theorem placeAll_eq : ∀ (es : Log) {pos : Nat}, pos ≤ log.length →
    placeAll log applied pos es =
      match splice log applied pos es with
      | .ok log' => (log', .ok ())
      | .error index => (log, .error index)
  | [], _, _ => rfl
  | e :: es, pos, hpos => by
    unfold placeAll place splice
    cases hold : log[pos]? with
    | none =>
      have hlen := List.getElem?_eq_none_iff.mp hold
      have hlast : pos + 1 = (log ++ [e]).length := by
        rw [List.length_append, List.length_singleton]; omega
      have hend := placeAll_end applied es (log ++ [e]) hlast
      rwa [List.append_assoc] at hend
    | some old =>
      have hlt := (List.getElem?_eq_some_iff.mp hold).1
      by_cases hterm : old.term = e.term
      · simp only [if_pos hterm]
        exact placeAll_eq es hlt
      by_cases ha : pos < applied
      · simp only [if_neg hterm, if_pos ha]
      · have hlast : pos + 1 = (log.take pos ++ [e]).length := by
          rw [List.length_append, List.length_singleton, List.length_take]; omega
        have hend := placeAll_end applied es (log.take pos ++ [e]) hlast
        simpa only [if_neg hterm, if_neg ha, List.append_assoc, List.singleton_append] using hend

end Log

open Log

/-! ## The machine -/

variable {σ : Type} [StateMachine σ]

/-- A machine takes the entries of a log from behind the first `a` up to the `b`-th, each at its index, and
fails on none. -/
inductive Feeds (log : Log) : Nat → σ → Nat → σ → Prop where
  | stop (a : Nat) (m : σ) : Feeds log a m a m
  | next {a b : Nat} {m m₁ m' : σ} {e : Entry} (he : log[a]? = some e)
    (hm : StateMachine.apply m (a + 1) e.data = (m₁, .ok ())) (rest : Feeds log (a + 1) m₁ b m') :
    Feeds log a m b m'

/-- A machine is to take the entries of a log from behind the first `a` up to an index. It does, or it fails,
and then it stands just before the entry on which it has failed; how far it has got, the machine then, and the
reason of a failure. -/
inductive Progress (log : Log) (a : Nat) (m : σ) (upto : Nat) : Nat → σ → Option String → Prop where
  | done {m' : σ} (fed : Feeds log a m upto m') : Progress log a m upto upto m' none
  | failed {b : Nat} {m₁ m' : σ} {e : Entry} {err : Error} (hb : b < upto) (fed : Feeds log a m b m₁)
    (he : log[b]? = some e) (hm : StateMachine.apply m₁ (b + 1) e.data = (m', .error err)) :
    Progress log a m upto b m' (some err.message)

variable {log es : Log} {a b upto : Nat} {m m₁ m' : σ} {e : Entry} {h : Option String}

theorem Feeds.le (fed : Feeds log a m b m') : a ≤ b := by
  induction fed with
  | stop => exact Nat.le_refl _
  | next _ _ _ ih => exact Nat.le_of_succ_le ih

theorem Progress.next (he : log[a]? = some e)
    (hm : StateMachine.apply m (a + 1) e.data = (m₁, .ok ()))
    (rest : Progress log (a + 1) m₁ upto b m' h) : Progress log a m upto b m' h := by
  cases rest with
  | done fed => exact .done (.next he hm fed)
  | failed hb fed hf hfail => exact .failed hb (.next he hm fed) hf hfail

theorem Progress.le (p : Progress log a m upto b m' h) : a ≤ b ∧ b ≤ upto := by
  cases p with
  | done fed => exact ⟨fed.le, Nat.le_refl _⟩
  | failed hb fed => exact ⟨fed.le, Nat.le_of_lt hb⟩

namespace Replica

variable {r : Replica σ} {term : Nat} {leader : String} {prev prevTerm commit : Nat}

theorem applyEntries_progress : ∀ {es : Log} {r : Replica σ}, r.halted = none →
    es <+: log.drop r.applied → ∃ b m h,
      Progress log r.applied r.machine (r.applied + es.length) b m h ∧
      (r.applyEntries es).1 = { r with machine := m, applied := b, halted := h } ∧
      ((r.applyEntries es).2 = .ok () ↔ h = none)
  | [], r, hh, _ => ⟨_, _, _, .done (.stop ..), by rw [← hh]; rfl, fun _ => rfl, fun _ => rfl⟩
  | e :: es, r, hh, hpre => by
    obtain ⟨rest, hrest⟩ := hpre
    have hget : log[r.applied]? = some e := by
      rw [← Nat.add_zero r.applied, ← List.getElem?_drop, ← hrest]; rfl
    unfold applyEntries
    split
    · rename_i m₁ hm
      have htail : es <+: log.drop (r.applied + 1) :=
        ⟨rest, by rw [← List.tail_drop, ← hrest]; rfl⟩
      obtain ⟨b, m, h, hp, heq, hans⟩ := applyEntries_progress
        (r := { r with machine := m₁, applied := r.applied + 1 }) hh htail
      refine ⟨b, m, h, .next hget hm ?_, heq, hans⟩
      rwa [List.length_cons, Nat.add_comm es.length, ← Nat.add_assoc]
    · rename_i m' err hm
      exact ⟨_, _, _, .failed (by simp) (.stop ..) hget hm, rfl, nofun, nofun⟩

/-- A replica that is not halted goes on from what it has applied. -/
theorem applyUpTo_progress (hh : r.halted = none) (happ : r.applied ≤ r.log.length) (index : Nat) :
    ∃ b m h, Progress r.log r.applied r.machine (max r.applied (min index r.log.length)) b m h ∧
      (r.applyUpTo index).1 = { r with machine := m, applied := b, halted := h } ∧
      ((r.applyUpTo index).2 = .ok () ↔ h = none) := by
  have hpre : (r.log.take index).drop r.applied <+: r.log.drop r.applied := by
    rw [List.drop_take]; exact List.take_prefix ..
  obtain ⟨b, m, h, hp, heq, hans⟩ := applyEntries_progress hh hpre
  rw [List.length_drop, List.length_take] at hp
  rw [show max r.applied (min index r.log.length) =
    r.applied + (min index r.log.length - r.applied) by omega]
  simp only [applyUpTo, hh]
  exact ⟨b, m, h, hp, heq, hans⟩

/-! ## The whole call -/

/-- The entry at `prev` has the term that the leader names; before the first entry there is nothing to name. -/
def Anchored (log : Log) (prev prevTerm : Nat) : Prop :=
  prev = 0 ∨ (log.at? prev).map Entry.term = some prevTerm

theorem Anchored.le (h : Anchored log prev prevTerm) : prev ≤ log.length := by
  rcases h with rfl | h
  · exact Nat.zero_le _
  cases prev with
  | zero => exact Nat.zero_le _
  | succ k =>
    obtain ⟨x, hx, -⟩ := Option.map_eq_some_iff.mp h
    exact (List.getElem?_eq_some_iff.mp hx).1

/-- The courses that a message with entries can take, with the replica afterwards and its answer. -/
inductive Course (r : Replica σ) (term : Nat) (leader : String) (prev prevTerm : Nat) (es : Log)
    (commit : Nat) : Replica σ → Except Reject Nat → Prop where
  | down (hs : r.stopped = true) : Course r term leader prev prevTerm es commit r (.error .down)
  | stale (hs : r.stopped = false) (ht : term < r.term) :
    Course r term leader prev prevTerm es commit r (.error (.staleTerm r.term))
  | halted (hs : r.stopped = false) (ht : r.term ≤ term) (hh : r.halted.isSome) :
    Course r term leader prev prevTerm es commit (r.follow term leader) (.error .halted)
  | mismatch (hs : r.stopped = false) (ht : r.term ≤ term) (hh : r.halted = none)
    (hm : ¬Anchored r.log prev prevTerm) :
    Course r term leader prev prevTerm es commit (r.follow term leader) (.error (.mismatch prev))
  | conflict {k : Nat} (hs : r.stopped = false) (ht : r.term ≤ term) (hh : r.halted = none)
    (hm : Anchored r.log prev prevTerm) (hk : Parts r.log prev es k) (ha : prev + k < r.applied)
    (hloop : placeAll r.log r.applied prev es = (r.log, .error (prev + k + 1))) :
    Course r term leader prev prevTerm es commit (r.follow term leader)
      (.error (.conflict (prev + k + 1)))
  | taken {log' : Log} {b : Nat} {m : σ} {h : Option String} (hs : r.stopped = false)
    (ht : r.term ≤ term) (hh : r.halted = none) (hm : Anchored r.log prev prevTerm)
    (hl : Spliced r.log prev es log') (hkeep : log'.take r.applied = r.log.take r.applied)
    (ha : r.applied ≤ log'.length) (hloop : placeAll r.log r.applied prev es = (log', .ok ()))
    (hp : Progress log' r.applied r.machine (max r.applied (min commit log'.length)) b m h) :
    Course r term leader prev prevTerm es commit
      { r.follow term leader with log := log', machine := m, applied := b, halted := h }
      (if h = none then .ok log'.length else .error .halted)

theorem append_course (happ : r.applied ≤ r.log.length) (term : Nat) (leader : String)
    (prev prevTerm : Nat) (es : Log) (commit : Nat) :
    Course r term leader prev prevTerm es commit (r.append term leader prev prevTerm es commit).1
      (r.append term leader prev prevTerm es commit).2 := by
  unfold append
  rw [observe_eq]
  by_cases hs : r.stopped = true
  · simpa [hs] using Course.down hs
  rw [Bool.not_eq_true] at hs
  by_cases ht : term < r.term
  · simpa [hs, ht] using Course.stale hs ht
  simp only [hs, Bool.false_eq_true, if_false, ht]
  rw [Nat.not_lt] at ht
  by_cases hh : r.halted.isSome
  · simpa [hh] using Course.halted hs ht hh
  rw [Bool.not_eq_true, Option.isSome_eq_false_iff, Option.isNone_iff_eq_none] at hh
  rw [if_neg (by simp [hh])]
  by_cases hm : Anchored r.log prev prevTerm
  case neg =>
    rw [if_pos (by rw [follow_log]; exact not_or.mp hm)]
    exact .mismatch hs ht hh hm
  rw [if_neg (by rw [follow_log]; exact fun hno => hm.elim hno.1 hno.2)]
  have hsplice : Splicing r.log r.applied prev es
      (splice (r.follow term leader).log (r.follow term leader).applied prev es) := by
    rw [follow_log, follow_applied]
    exact splice_splicing happ es prev
  have hloop : placeAll r.log r.applied prev es =
      match splice (r.follow term leader).log (r.follow term leader).applied prev es with
      | .ok log' => (log', .ok ())
      | .error index => (r.log, .error index) := by
    rw [follow_log, follow_applied]
    exact placeAll_eq es hm.le
  generalize splice (r.follow term leader).log (r.follow term leader).applied prev es = spliced
    at hsplice hloop ⊢
  cases hsplice with
  | refused hk ha => exact .conflict hs ht hh hm hk ha hloop
  | @done log' hl hkeep ha =>
    obtain ⟨b, m, h, hp, heq, hans⟩ := applyUpTo_progress
      (r := { r.follow term leader with log := log' }) (by simpa using hh) (by simpa using ha)
      (min commit log'.length)
    simp only [follow_applied, follow_machine, Nat.min_assoc, Nat.min_self] at hp
    have htaken : Course r term leader prev prevTerm es commit _ _ :=
      .taken hs ht hh hm hl hkeep ha hloop hp
    rw [← heq] at htaken
    dsimp only
    generalize applyUpTo { r.follow term leader with log := log' } (min commit log'.length) = p
      at hans htaken ⊢
    obtain ⟨r', answer⟩ := p
    cases answer with
    | ok u => rwa [if_pos (hans.mp rfl)] at htaken
    | error err => rwa [if_neg fun hnone => nomatch hans.mpr hnone] at htaken

/-- What a message with entries leaves, by the answer that it gets. One that finds the replica down, or at a
later term, changes nothing. One that is refused for the entries, or by a replica that was halted before,
leaves the log, the machine and what is applied. Otherwise the entries are in the log, and the machine has
taken what the leader has applied of it, up to an entry on which it fails. In any case the applied entries
stay. -/
theorem append_whole (r : Replica σ) (happ : r.applied ≤ r.log.length) (term : Nat) (leader : String)
    (prev prevTerm : Nat) (es : Log) (commit : Nat) {r' : Replica σ} {answer : Except Reject Nat}
    (hcall : r.append term leader prev prevTerm es commit = (r', answer)) :
    (answer = .error .down ∨ (∃ newer, answer = .error (.staleTerm newer)) → r' = r) ∧
    ((∃ index, answer = .error (.mismatch index)) ∨ (∃ index, answer = .error (.conflict index)) ∨
        answer = .error .halted ∧ r.halted ≠ none →
      r'.log = r.log ∧ r'.applied = r.applied ∧ r'.machine = r.machine) ∧
    ((∃ length, answer = .ok length) ∨ answer = .error .halted ∧ r.halted = none →
      Spliced r.log prev es r'.log ∧
      Progress r'.log r.applied r.machine (max r.applied (min commit r'.log.length))
        r'.applied r'.machine r'.halted ∧
      answer = if r'.halted = none then .ok r'.log.length else .error .halted) ∧
    r'.log.take r.applied = r.log.take r.applied ∧ r.applied ≤ r'.applied ∧
      r'.applied ≤ r'.log.length ∧
    Course r term leader prev prevTerm es commit r' answer := by
  have hc := append_course happ term leader prev prevTerm es commit
  rw [hcall] at hc
  dsimp only at hc
  have hsame : (r.follow term leader).log = r.log ∧ (r.follow term leader).applied = r.applied ∧
      (r.follow term leader).machine = r.machine := ⟨follow_log .., follow_applied .., follow_machine ..⟩
  have hfront : (r.follow term leader).log.take r.applied = r.log.take r.applied ∧
      r.applied ≤ (r.follow term leader).applied ∧
      (r.follow term leader).applied ≤ (r.follow term leader).log.length := by
    rw [follow_log, follow_applied]
    exact ⟨rfl, Nat.le_refl _, happ⟩
  have hcourse := hc
  cases hc with
  | down hs => exact ⟨fun _ => rfl, by simp, by simp, rfl, Nat.le_refl _, happ, hcourse⟩
  | stale hs ht => exact ⟨fun _ => rfl, by simp, by simp, rfl, Nat.le_refl _, happ, hcourse⟩
  | halted hs ht hh =>
    have hne : r.halted ≠ none := Option.isSome_iff_ne_none.mp hh
    exact ⟨by simp, fun _ => hsame, by simp [hne], hfront.1, hfront.2.1, hfront.2.2, hcourse⟩
  | mismatch hs ht hh hm =>
    exact ⟨by simp, fun _ => hsame, by simp, hfront.1, hfront.2.1, hfront.2.2, hcourse⟩
  | conflict hs ht hh hm hk ha hloop =>
    exact ⟨by simp, fun _ => hsame, by simp, hfront.1, hfront.2.1, hfront.2.2, hcourse⟩
  | @taken log' b m h hs ht hh hm hl hkeep ha hloop hp =>
    obtain ⟨hab, hb⟩ := hp.le
    have htop : b ≤ log'.length := by omega
    refine ⟨?_, ?_, fun _ => ⟨hl, hp, rfl⟩, hkeep, hab, htop, hcourse⟩ <;> cases h <;> simp [hh]

/-- A follower has applied two entries of three, and its machine fails on the fifth. -/
def behind : Replica Recorder where
  id := "n2"
  address := "a2"
  machine := { fault := fun index _ => if index = 5 then some .shutdown else none }
  term := 1
  log := [⟨1, [1]⟩, ⟨1, [2]⟩, ⟨1, [3]⟩]
  applied := 2

/-- Its third entry makes room for three others, of which it applies two. -/
theorem append_whole_behind :
    let after := behind.append 2 "a1" 2 1 [⟨2, [4]⟩, ⟨2, [5]⟩, ⟨2, [6]⟩] 9
    behind.applied ≤ behind.log.length ∧ after.2 = .error .halted ∧
      after.1.log = [⟨1, [1]⟩, ⟨1, [2]⟩, ⟨2, [4]⟩, ⟨2, [5]⟩, ⟨2, [6]⟩] ∧ after.1.applied = 4 ∧
      after.1.machine.entries = [(3, [4]), (4, [5])] ∧
      after.1.halted = some Error.shutdown.message ∧
      Spliced behind.log 2 [⟨2, [4]⟩, ⟨2, [5]⟩, ⟨2, [6]⟩] after.1.log ∧
      Progress after.1.log 2 behind.machine 5 4 after.1.machine after.1.halted := by
  intro after
  have hans : after.2 = .error .halted := by decide +kernel
  obtain ⟨-, -, htaken, -⟩ := append_whole behind (by decide) 2 "a1" 2 1
    [⟨2, [4]⟩, ⟨2, [5]⟩, ⟨2, [6]⟩] 9 rfl
  obtain ⟨hl, hp, -⟩ := htaken (.inr ⟨hans, rfl⟩)
  exact ⟨by decide, hans, by decide +kernel, by decide +kernel, by decide +kernel, by decide +kernel,
    hl, hp⟩

end Replica

end ReplicatedTable.Raft
