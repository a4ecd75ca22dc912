import ReplicatedTable.Proofs.Gossip.Recollection
import ReplicatedTable.Proofs.Gossip.Succession

/-!
# Reaping

When a member crashes, those who know it are told, and the network notes down their names. If the member is
reaped later, whoever is registered under one of these names is told so (`reap_tells`): this is a newer member
if the one that saw the crash is gone, and one that knows the crashed member again if that came back. Whoever
is noted down as failed crashed at some time of the run (`exists_crash`), and what was said of it since comes
of its return only (`Crash`). So the crash is the last word on it for those who saw it and have not been told of
a return, and for no others (`Crash.lastWord_iff`).
-/
namespace ReplicatedTable.Gossip

open Std Relation

/-- What events say of one member. -/
def reportsOn (x : String) (es : List Event) : List (EventKind × Member) :=
  (es.flatMap Event.reports).filter fun r => r.2.name = x

/-- The last thing that events say of a member. -/
def lastWord (x : String) (es : List Event) : Option EventKind := (reportsOn x es).getLast?.map Prod.fst

/-- Some event says that a member joins. -/
def Welcomed (x : String) (es : List Event) : Prop := ∃ r ∈ reportsOn x es, r.1 = .join

theorem mem_reportsOn {x : String} {es : List Event} {r : EventKind × Member} :
    r ∈ reportsOn x es ↔ ∃ e ∈ es, r ∈ e.reports ∧ r.2.name = x := by
  rw [reportsOn, List.mem_filter, List.mem_flatMap, decide_eq_true_eq]
  exact ⟨fun ⟨⟨e, he, hr⟩, hx⟩ => ⟨e, he, hr, hx⟩, fun ⟨e, he, hr, hx⟩ => ⟨⟨e, he, hr⟩, hx⟩⟩

theorem reportsOn_append (x : String) (es more : List Event) :
    reportsOn x (es ++ more) = reportsOn x es ++ reportsOn x more := by
  rw [reportsOn, List.flatMap_append, List.filter_append]
  rfl

theorem lastWord_append_of_quiet {x : String} {more : List Event} (h : reportsOn x more = [])
    (es : List Event) : lastWord x (es ++ more) = lastWord x es := by
  rw [lastWord, reportsOn_append, h, List.append_nil, lastWord]

/-- The last word is among the later ones if there are any. -/
theorem lastWord_append_of_mem {x : String} {more : List Event} {r : EventKind × Member}
    (h : r ∈ reportsOn x more) (es : List Event) :
    ∃ r' ∈ reportsOn x more, lastWord x (es ++ more) = some r'.1 := by
  have hne : reportsOn x more ≠ [] := List.ne_nil_of_mem h
  refine ⟨(reportsOn x more).getLast hne, List.getLast_mem hne, ?_⟩
  rw [lastWord, reportsOn_append, List.getLast?_append_of_ne_nil _ hne, List.getLast?_eq_some_getLast hne]
  rfl

/-- Of somebody unknown nothing is said that fits before it joins. -/
theorem Recollection.reports_of_stranger {x : String} {known : Recollection}
    {rs : List (EventKind × Member)} (hfit : known.FitAll rs) (hx : x ∉ known)
    (hrs : ∀ r ∈ rs, r.2.name = x → r.1 ≠ .join ∧ r.1 ≠ .reap) : ∀ r ∈ rs, r.2.name ≠ x := by
  induction rs generalizing known with
  | nil => exact fun r hr => absurd hr List.not_mem_nil
  | cons r rs ih =>
    obtain ⟨hr, hfit⟩ := hfit
    have hname : r.2.name ≠ x := by
      rintro rfl
      obtain ⟨hjoin, hreap⟩ := hrs r (List.mem_cons_self ..) rfl
      obtain ⟨kind, m⟩ := r
      cases kind with
      | join => exact hjoin rfl
      | reap => exact hreap rfl
      | update => exact hx hr
      | leave => exact hx hr
      | failed => exact hx hr
    have hstill : x ∉ known.take r := by
      have hne : ¬compare r.2.name x = .eq := fun e => hname (LawfulEqCmp.eq_of_compare e)
      obtain ⟨kind, m⟩ := r
      cases kind with
      | join | update => exact fun hmem => (ExtTreeMap.mem_insert.mp hmem).elim hne hx
      | leave | failed => exact fun hmem => hx (ExtTreeMap.mem_erase.mp hmem).2
      | reap => exact hx
    intro r' hr'
    rcases List.mem_cons.mp hr' with rfl | hr'
    · exact hname
    · exact ih hfit hstill (fun r hr => hrs r (List.mem_cons_of_mem _ hr)) r' hr'

namespace Network

variable {n n' n'' : Network} {x y name : String} {s t : Slot} {Q Q' : Prop}

/-! ## What is sent between two states -/

/-- An event does not say that a member has crashed or was reaped. If it says anything of the member, then
under some condition. -/
def Spares (x : String) (Q : Prop) (e : Event) : Prop :=
  ∀ r ∈ e.reports, r.2.name = x → r.1 ≠ .failed ∧ r.1 ≠ .reap ∧ Q

theorem Spares.mono {e : Event} (h : Spares x Q e) (hQ : Q → Q') : Spares x Q' e := fun r hr hx =>
  (h r hr hx).imp_right (And.imp_right hQ)

theorem spares_of_kind {kind : EventKind} {ms : List Member} (hfailed : kind ≠ .failed)
    (hreap : kind ≠ .reap) (hQ : ∀ m ∈ ms, m.name = x → Q) : Spares x Q (.members kind ms) := by
  intro r hr hx
  obtain ⟨m, hm, rfl⟩ := List.mem_map.mp hr
  exact ⟨hfailed, hreap, hQ m hm hx⟩

theorem spares_of_name {kind : EventKind} {m : Member} (h : m.name ≠ x) :
    Spares x Q (.members kind [m]) := by
  intro r hr hx
  obtain ⟨m', hm, rfl⟩ := List.mem_map.mp hr
  rw [List.mem_singleton.mp hm] at hx
  exact absurd hx h

theorem spares_depart (hs : n.slots[name]? = some s) {kind : EventKind} {status : Liveness}
    (h : Spares x Q (.members kind [{ s.member with status := status }])) :
    Sends (Spares x Q) n (n.depart name kind status).1 := by
  rw [depart_eq hs]
  refine .of_round rfl (fun t e he => ?_) _
  rw [List.mem_singleton.mp he]
  exact h

theorem spares_merge (hn : n.Tidy) (name target : String) :
    Sends (Spares x (x ∈ n.slots)) n (n.merge name target).1 := by
  rcases merge_cases n name target with e | ⟨s, t, -, -, e⟩ <;> rw [e]
  · exact .refl _ n
  · refine .round (fun u e he => ?_) n _
    rw [welcome] at he
    dsimp only at he
    split at he
    · cases he
    · rw [List.mem_singleton.mp he]
      refine spares_of_kind (by decide) (by decide) fun m hm hx => ?_
      obtain ⟨v, hv, -⟩ := Option.map_eq_some_iff.mp ((mem_strangers hn).mp hm).2.2
      exact hx ▸ mem_of_getElem? hv

/-- Joins register nobody and remove nobody. -/
theorem mem_slots_mergeAll (n : Network) (links : List (String × String)) :
    x ∈ (n.mergeAll links).slots ↔ x ∈ n.slots := by
  have h := member?_mergeAll n links x
  have hmem : ∀ n : Network, x ∈ n.slots ↔ (n.member? x).isSome := fun n => by
    rw [member?, Option.isSome_map, ExtTreeMap.mem_iff_isSome_getElem?]
  rw [hmem, hmem, h]

theorem spares_mergeAll (hn : n.Tidy) (links : List (String × String)) :
    Sends (Spares x (x ∈ n.slots)) n (n.mergeAll links) := by
  induction links generalizing n with
  | nil => exact .refl _ n
  | cons p links ih =>
    refine (spares_merge hn p.1 p.2).trans ((ih (hn.move (.merge p.1 p.2))).mono fun e he => ?_)
    exact he.mono (mem_slots_mergeAll n [p]).mp

/-- A request does not let anybody crash, and nothing is said of those who are not registered. -/
theorem Request.spares (h : Request n n') (hn : n.Tidy) (x : String) :
    Sends (Spares x (x ∈ n.slots ∨ x ∈ n'.slots)) n n' := by
  cases h with
  | @register m n' mailbox hr =>
    obtain ⟨-, -, -, rfl⟩ := register_ok hr
    refine ⟨[(n.mailboxes, .members .join [m])], rfl, fun p hp => ?_⟩
    rw [List.mem_singleton.mp hp]
    refine spares_of_kind (by decide) (by decide) fun m' hm' hx => Or.inr ?_
    rw [List.mem_singleton.mp hm'] at hx
    exact hx ▸ ExtTreeMap.mem_insert_self
  | join links => exact (spares_mergeAll hn links).mono fun e he => he.mono Or.inl
  | leave name =>
    cases hs : n.slots[name]? with
    | none => rw [Network.leave, depart_of_none hs]; exact .refl _ n
    | some s =>
      refine spares_depart hs (spares_of_kind (by decide) (by decide) fun m hm hx => Or.inl ?_)
      rw [List.mem_singleton.mp hm] at hx
      exact hx ▸ hn.name hs ▸ mem_of_getElem? hs
  | update name tags =>
    cases hs : n.slots[name]? with
    | none => rw [update_of_none hs]; exact .refl _ n
    | some s =>
      rw [update_eq hs]
      refine .of_round rfl (fun t e he => ?_) _
      rw [List.mem_singleton.mp he]
      refine spares_of_kind (by decide) (by decide) fun m hm hx => Or.inl ?_
      rw [List.mem_singleton.mp hm] at hx
      exact hx ▸ hn.name hs ▸ mem_of_getElem? hs

theorem Request.failed (h : Request n n') : n'.failed = n.failed := by
  cases h with
  | register hr =>
    obtain ⟨-, -, -, rfl⟩ := register_ok hr
    rfl
  | join links =>
    induction links generalizing n with
    | nil => rfl
    | cons p links ih => exact ih.trans (failed_merge n p.1 p.2)
  | leave name => exact failed_depart n name .leave .left
  | update name tags => exact failed_update n name tags

theorem spares_fail (hs : n.slots[y]? = some s) (hn : n.Tidy) (hy : y ≠ x) :
    (n.fail y).1.failed[x]? = n.failed[x]? ∧ Sends (Spares x Q) n (n.fail y).1 := by
  rw [fail_eq hs]
  refine ⟨by rw [getElem?_insert, if_neg hy], ?_⟩
  have hname : s.member.name ≠ x := (hn.name hs).symm ▸ hy
  have hdepart : Sends (Spares x Q) n (n.depart y .failed .failed).1 :=
    spares_depart hs (spares_of_name hname)
  exact hdepart.trans (.of_log rfl)

theorem spares_reap {m : Member} {told : List String} (hf : n.failed[y]? = some (m, told))
    (hname : m.name = y) (hy : y ≠ x) :
    (n.reap y).1.failed[x]? = n.failed[x]? ∧ Sends (Spares x Q) n (n.reap y).1 := by
  rw [reap_eq hf]
  refine ⟨by rw [failed_round_of, getElem?_erase, if_neg hy], ?_⟩
  refine .of_round rfl (fun t e he => ?_) _
  rw [List.mem_singleton.mp he]
  exact spares_of_name (hname ▸ hy)

/-- Whoever is registered has its mailbox from before, or got a new one. -/
structure Inherits (n n' : Network) : Prop where
  mailboxes : n.mailboxes ≤ n'.mailboxes
  slot : ∀ {y : String} {t : Slot}, n'.slots[y]? = some t →
    (∃ s, n.slots[y]? = some s ∧ s.mailbox = t.mailbox) ∨ n.mailboxes ≤ t.mailbox

theorem Inherits.move (hn : n.Tidy) (hm : Move n n') : Inherits n n' := by
  rcases hm.register_or_keeps hn with ⟨m, mailbox, hr⟩ | hkeeps
  · obtain ⟨-, -, -, rfl⟩ := register_ok hr
    refine ⟨Nat.le_succ _, fun ht => ?_⟩
    rw [getElem?_insert] at ht
    split at ht
    · cases ht
      exact Or.inr (Nat.le_refl _)
    · exact Or.inl ⟨_, ht, rfl⟩
  · refine ⟨Nat.le_of_eq hkeeps.mailboxes.symm, fun ht => ?_⟩
    obtain ⟨s, hs, -, -, e⟩ := hkeeps.slot ht
    exact Or.inl ⟨s, hs, e.symm⟩

theorem Inherits.moves (hn : n.Tidy) (hm : ReflTransGen Move n n') : Inherits n n' ∧ n'.Tidy := by
  induction hm with
  | refl => exact ⟨⟨Nat.le_refl _, fun ht => Or.inl ⟨_, ht, rfl⟩⟩, hn⟩
  | tail _ hm ih =>
    obtain ⟨h, hn'⟩ := ih
    have h' := Inherits.move hn' hm
    refine ⟨⟨Nat.le_trans h.mailboxes h'.mailboxes, fun ht => ?_⟩, hn'.move hm⟩
    rcases h'.slot ht with ⟨s', hs', e'⟩ | hle
    · rw [← e']
      exact h.slot hs'
    · exact Or.inr (Nat.le_trans h.mailboxes hle)

end Network

namespace Session

open Network

variable {before after : List Op} {x y : String} {s t : Slot}

/-! ## Crashes in a run -/

/-- A member crashed in a run, and in the rest of it was not reaped. Nothing was said of it since but what
comes of its return. -/
structure Crash (before after : List Op) (x : String) (s : Slot) : Prop where
  slot : (run {} before).network.slots[x]? = some s
  entry : (run {} (before ++ .fail x :: after)).network.failed[x]? =
    some ({ s.member with status := .failed }, (run {} before).network.observers x s)
  since : Sends
    (Spares x (∃ front, front <+: after ∧ x ∈ (run {} (before ++ .fail x :: front)).network.slots))
    (run {} (before ++ [.fail x])).network (run {} (before ++ .fail x :: after)).network

theorem network_fail (ops : List Op) (x : String) :
    (run {} (ops ++ [.fail x])).network = ((run {} ops).network.fail x).1 := by
  rw [run_append]
  rfl

theorem network_reap (ops : List Op) (x : String) :
    (run {} (ops ++ [.reap x])).network = ((run {} ops).network.reap x).1 := by
  rw [run_append]
  rfl

theorem crash_now (ops : List Op) (hs : (run {} ops).network.slots[x]? = some s) : Crash ops [] x s where
  slot := hs
  entry := by rw [network_fail, fail_eq hs, getElem?_insert, if_pos rfl]
  since := .refl _ _

theorem Crash.extend (h : Crash before after x s) {op : Op}
    (hfailed : (run {} (before ++ .fail x :: (after ++ [op]))).network.failed[x]? =
      (run {} (before ++ .fail x :: after)).network.failed[x]?)
    (hsends : Sends (Spares x (x ∈ (run {} (before ++ .fail x :: after)).network.slots ∨
        x ∈ (run {} (before ++ .fail x :: (after ++ [op]))).network.slots))
      (run {} (before ++ .fail x :: after)).network
      (run {} (before ++ .fail x :: (after ++ [op]))).network) :
    Crash before (after ++ [op]) x s where
  slot := h.slot
  entry := hfailed.trans h.entry
  since := by
    refine (h.since.mono fun e he => he.mono ?_).trans (hsends.mono fun e he => he.mono ?_)
    · rintro ⟨front, hfront, hx⟩
      exact ⟨front, hfront.trans (List.prefix_append ..), hx⟩
    · rintro (hx | hx)
      · exact ⟨after, List.prefix_append .., hx⟩
      · exact ⟨after ++ [op], List.prefix_refl _, hx⟩

/-- The network as an operation leaves it. -/
theorem network_step (ops : List Op) (op : Op) :
    (∃ member, op = .fail member ∧
      (run {} (ops ++ [op])).network = ((run {} ops).network.fail member).1) ∨
    (∃ member, op = .reap member ∧
      (run {} (ops ++ [op])).network = ((run {} ops).network.reap member).1) ∨
    Request (run {} ops).network (run {} (ops ++ [op])).network := by
  rw [run_append]
  show (∃ member, _ ∧ ((((run {} ops).step? op).map (·.1)).getD (run {} ops)).network = _) ∨
    (∃ member, _ ∧ ((((run {} ops).step? op).map (·.1)).getD (run {} ops)).network = _) ∨
    Request _ (((((run {} ops).step? op).map (·.1)).getD (run {} ops))).network
  cases hstep : (run {} ops).step? op with
  | none => exact Or.inr (Or.inr (.idle _))
  | some p => exact step_network hstep

/-- Whoever is noted down as failed crashed before and was not reaped since. -/
theorem exists_crash (ops : List Op) {p : Member × List String}
    (hf : (run {} ops).network.failed[x]? = some p) :
    ∃ before after s, ops = before ++ .fail x :: after ∧ Crash before after x s := by
  induction ops using List.reverseRecOn generalizing x p with
  | nil => simp [run] at hf
  | append_singleton ops op ih =>
    have hn := tidy_run ops
    -- a crash in the earlier run is one in the longer run if the operation is about others
    have hextend : ((run {} (ops ++ [op])).network.failed[x]? = (run {} ops).network.failed[x]? ∧
        Sends (Spares x (x ∈ (run {} ops).network.slots ∨ x ∈ (run {} (ops ++ [op])).network.slots))
          (run {} ops).network (run {} (ops ++ [op])).network) →
        ∃ before after s, ops ++ [op] = before ++ .fail x :: after ∧ Crash before after x s := by
      rintro ⟨hfailed, hsends⟩
      obtain ⟨before, after, s, rfl, hc⟩ := ih (hfailed ▸ hf)
      simp only [List.append_assoc, List.cons_append] at hfailed hsends ⊢
      exact ⟨before, after ++ [op], s, rfl, hc.extend hfailed hsends⟩
    obtain ⟨y, rfl, e⟩ | ⟨y, rfl, e⟩ | hr := network_step ops op
    · cases hs : (run {} ops).network.slots[y]? with
      | none =>
        rw [fail_of_none hs] at e
        exact hextend (by rw [e]; exact ⟨rfl, .refl _ _⟩)
      | some s =>
        by_cases hy : y = x
        · subst hy
          exact ⟨ops, [], s, rfl, crash_now ops hs⟩
        · exact hextend (e ▸ spares_fail hs hn hy)
    · cases hy : (run {} ops).network.failed[y]? with
      | none =>
        rw [reap_of_none hy] at e
        exact hextend (by rw [e]; exact ⟨rfl, .refl _ _⟩)
      | some q =>
        obtain ⟨m, told⟩ := q
        have hne : y ≠ x := by
          rintro rfl
          rw [e, reap_eq hy, failed_round_of, getElem?_erase, if_pos rfl] at hf
          cases hf
        have hname : m.name = y := by
          obtain ⟨before, after, s, rfl, hc⟩ := ih hy
          rw [hc.entry] at hy
          cases hy
          exact (tidy_run before).name hc.slot
        exact hextend (e ▸ spares_reap hy hname hne)
    · exact hextend ⟨by rw [hr.failed], hr.spares hn x⟩

/-! ## The last word on a member that crashed -/

theorem inherits_since (before after : List Op) (x : String) :
    Inherits (run {} (before ++ [.fail x])).network
      (run {} (before ++ .fail x :: after)).network := by
  refine (Inherits.moves (tidy_run (before ++ [.fail x])) ?_).1
  have happend : before ++ Op.fail x :: after = (before ++ [.fail x]) ++ after := by simp
  rw [happend, run_append _ _ after]
  exact run_moves _ after

/-- What was sent to a member since the crash. -/
def sentSince (before after : List Op) (x : String) (mailbox : Nat) : List Event :=
  ((run {} (before ++ .fail x :: after)).network.sent mailbox).drop
    ((run {} (before ++ [.fail x])).network.sent mailbox).length

theorem Crash.sent (h : Crash before after x s) (k : Nat) :
    (run {} (before ++ .fail x :: after)).network.sent k =
      (run {} (before ++ [.fail x])).network.sent k ++ sentSince before after x k ∧
    ∀ e ∈ sentSince before after x k,
      Spares x (∃ front, front <+: after ∧ x ∈ (run {} (before ++ .fail x :: front)).network.slots) e := by
  obtain ⟨es, hes, hall⟩ := h.since.sent k
  have hsince : sentSince before after x k = es := by rw [sentSince, hes, List.drop_left]
  exact ⟨hsince ▸ hes, hsince ▸ hall⟩

/-- Those who knew the member are told of the crash. -/
theorem Crash.told (h : Crash before after x s) {u : Slot}
    (hu : (run {} before).network.slots[y]? = some u)
    (hy : y ∈ (run {} before).network.observers x s) :
    (run {} (before ++ [.fail x])).network.sent u.mailbox = (run {} before).network.sent u.mailbox ++
      [.members .failed [{ s.member with status := .failed }]] := by
  obtain ⟨hn, hp⟩ := ordered_run before
  have hne := ((mem_observers hp h.slot).mp hy).2
  have hkept : ((run {} before).network.without x).slots[y]? = some u := by
    rw [without, getElem?_erase, if_neg (Ne.symm hne), hu]
  have hdepart := depart_eq h.slot .failed .failed
  rw [network_fail, fail_eq h.slot, hdepart]
  show (round _ ((run {} before).network.without x) _).sent u.mailbox = _
  rw [sent_round ((Keeps.without _ x).apart hn.apart) (nodup_observers _ x s) hkept, if_pos hy]
  rfl

/-- No later word is a crash, and none is the end of the member. -/
theorem Crash.kind_of_later (h : Crash before after x s) {k : Nat} {r : EventKind × Member}
    (hr : r ∈ reportsOn x (sentSince before after x k)) : r.1 ≠ .failed ∧ r.1 ≠ .reap := by
  obtain ⟨e, he, hre, hx⟩ := mem_reportsOn.mp hr
  obtain ⟨hfailed, hreap, -⟩ := (h.sent k).2 e he r hre hx
  exact ⟨hfailed, hreap⟩

theorem Crash.lastWord_of_later (h : Crash before after x s) {k : Nat} {r : EventKind × Member}
    (hr : r ∈ reportsOn x (sentSince before after x k)) :
    lastWord x ((run {} (before ++ .fail x :: after)).network.sent k) ≠ some .failed := by
  obtain ⟨r', hr', e⟩ := lastWord_append_of_mem hr ((run {} (before ++ [.fail x])).network.sent k)
  rw [(h.sent k).1, e]
  exact fun e' => (h.kind_of_later hr').1 (Option.some.inj e')

/-- Nothing is said of a member that crashed before it joins again. -/
theorem Crash.quiet (h : Crash before after x s) {k : Nat}
    (hgone : x ∉ Recollection.ofEvents ((run {} (before ++ [.fail x])).network.sent k))
    (hunwelcome : ¬Welcomed x (sentSince before after x k)) :
    reportsOn x (sentSince before after x k) = [] := by
  have hfit := (recalled_run (before ++ .fail x :: after)).fits k
  rw [(h.sent k).1, List.flatMap_append, Recollection.fitAll_append] at hfit
  rw [reportsOn, List.filter_eq_nil_iff]
  intro r hr
  rw [decide_eq_true_eq]
  refine Recollection.reports_of_stranger hfit.2 hgone (fun r hr hx => ?_) r hr
  have hmem : r ∈ reportsOn x (sentSince before after x k) :=
    List.mem_filter.mpr ⟨hr, decide_eq_true hx⟩
  exact ⟨fun hjoin => hunwelcome ⟨r, hmem, hjoin⟩, (h.kind_of_later hmem).2⟩

theorem Crash.mailboxes (h : Crash before after x s) :
    (run {} (before ++ [.fail x])).network.mailboxes = (run {} before).network.mailboxes := by
  rw [network_fail, fail_eq h.slot]
  exact (Keeps.depart _ x .failed .failed).mailboxes

/-- A mailbox that was open before the crash belonged to the same name. -/
theorem Crash.slot_before (h : Crash before after x s)
    (ht : (run {} (before ++ .fail x :: after)).network.slots[y]? = some t)
    (hold : t.mailbox < (run {} before).network.mailboxes) :
    ∃ u, (run {} before).network.slots[y]? = some u ∧ u.mailbox = t.mailbox := by
  have hkeeps : Keeps (run {} before).network (run {} (before ++ [.fail x])).network := by
    rw [network_fail, fail_eq h.slot]
    exact (Keeps.depart _ x .failed .failed).trans (.of_slots rfl rfl rfl)
  have hopen : ¬(run {} (before ++ [.fail x])).network.mailboxes ≤ t.mailbox := by
    rw [h.mailboxes]
    omega
  obtain ⟨s₁, hs₁, e₁⟩ := ((inherits_since before after x).slot ht).resolve_right hopen
  obtain ⟨u, hu, -, -, e⟩ := hkeeps.slot hs₁
  exact ⟨u, hu, e.symm.trans e₁⟩

/-- For a member that is told of the end of another one, the crash is the last word on that if and only if
it was registered by then and has not been told since that the other one joins. -/
theorem Crash.lastWord_iff (h : Crash before after x s)
    (ht : (run {} (before ++ .fail x :: after)).network.slots[y]? = some t)
    (hy : y ∈ (run {} before).network.observers x s) :
    lastWord x ((run {} (before ++ .fail x :: after)).network.sent t.mailbox) = some .failed ↔
      t.mailbox < (run {} before).network.mailboxes ∧
        ¬Welcomed x (sentSince before after x t.mailbox) := by
  by_cases hold : t.mailbox < (run {} before).network.mailboxes
  · obtain ⟨u, hu, e⟩ := h.slot_before ht hold
    have hcrash := h.told hu hy
    have hname : s.member.name = x := (tidy_run before).name h.slot
    rw [e] at hcrash
    constructor
    · intro hlast
      exact ⟨hold, fun ⟨r, hr, _⟩ => h.lastWord_of_later hr hlast⟩
    · rintro ⟨-, hunwelcome⟩
      have hgone : x ∉ Recollection.ofEvents
          ((run {} (before ++ [.fail x])).network.sent t.mailbox) := by
        rw [hcrash, Recollection.ofEvents_append]
        show x ∉ (Recollection.ofEvents _).erase s.member.name
        simp [hname]
      have hreport : reportsOn x [.members .failed [{ s.member with status := .failed }]] =
          [(.failed, { s.member with status := .failed })] := by
        simp [reportsOn, Event.reports, hname]
      rw [(h.sent t.mailbox).1, lastWord_append_of_quiet (h.quiet hgone hunwelcome), hcrash, lastWord,
        reportsOn_append, hreport, List.getLast?_concat]
      rfl
  · -- nothing was sent to a mailbox before there was one, so all that was said came after the crash
    have hempty : (run {} (before ++ [.fail x])).network.sent t.mailbox = [] :=
      (tidy_run _).unopened (by rw [h.mailboxes]; omega)
    refine ⟨fun hlast => ?_, fun hboth => absurd hboth.1 hold⟩
    have hsince := hlast
    rw [(h.sent t.mailbox).1, hempty, List.nil_append, lastWord, Option.map_eq_some_iff] at hsince
    obtain ⟨r, hr, -⟩ := hsince
    exact absurd hlast (h.lastWord_of_later (List.mem_of_getLast? hr))

/-- If the member was not registered since its crash, nobody was told that it joins. -/
theorem Crash.unwelcome (h : Crash before after x s) (k : Nat)
    (hgone : ∀ front, front <+: after → x ∉ (run {} (before ++ .fail x :: front)).network.slots) :
    ¬Welcomed x (sentSince before after x k) := by
  rintro ⟨r, hr, -⟩
  obtain ⟨e, he, hre, hx⟩ := mem_reportsOn.mp hr
  obtain ⟨-, -, front, hfront, hback⟩ := (h.sent k).2 e he r hre hx
  exact hgone front hfront hback

theorem Crash.sent_reap (h : Crash before after x s)
    (ht : (run {} (before ++ .fail x :: after)).network.slots[y]? = some t) :
    ((run {} (before ++ .fail x :: after)).run [.reap x]).network.sent t.mailbox =
      (run {} (before ++ .fail x :: after)).network.sent t.mailbox ++
        if y ∈ (run {} before).network.observers x s then
          [.members .reap [{ s.member with status := .failed }]] else [] := by
  have hreap : ((run {} (before ++ .fail x :: after)).run [.reap x]).network =
      ((run {} (before ++ .fail x :: after)).network.reap x).1 := by rw [← run_append, network_reap]
  rw [hreap, reap_eq h.entry]
  generalize hn : (run {} (before ++ .fail x :: after)).network = n at ht ⊢
  have hapart : Apart { n with failed := n.failed.erase x } := hn ▸ (tidy_run _).apart
  exact sent_round hapart (nodup_observers _ x s) ht

/-- What reaping a member tells, in every run. If no crash of the member is noted down, nothing happens. If one
is, the member crashed at some time, and those who knew it then are told of its end with the description that
it had: whoever is registered under their names by now, once each, and nobody else. For each of them the last
word on the member was its crash if and only if it was registered by the time of the crash and has not been told
since that the member joins, which nobody was told if the member was not registered again. -/
theorem reap_tells (ops : List Op) (x : String) :
    ((run {} ops).network.failed[x]? = none →
      ((run {} ops).run [.reap x]).network = (run {} ops).network) ∧
    ∀ m told, (run {} ops).network.failed[x]? = some (m, told) →
      ∃ before after s, ops = before ++ .fail x :: after ∧
        (run {} before).network.slots[x]? = some s ∧ m = { s.member with status := .failed } ∧
        (∀ y, y ∈ told ↔ y ≠ x ∧ (run {} before).network.Knows y x) ∧
        ∀ (y : String) (t : Slot), (run {} ops).network.slots[y]? = some t →
          ((run {} ops).run [.reap x]).network.sent t.mailbox =
            (run {} ops).network.sent t.mailbox ++ (if y ∈ told then [.members .reap [m]] else []) ∧
          (y ∈ told →
            (lastWord x ((run {} ops).network.sent t.mailbox) = some .failed ↔
              t.mailbox < (run {} before).network.mailboxes ∧
                ¬Welcomed x (sentSince before after x t.mailbox)) ∧
            ((∀ front, front <+: after →
                x ∉ (run {} (before ++ .fail x :: front)).network.slots) →
              ¬Welcomed x (sentSince before after x t.mailbox))) := by
  constructor
  · intro hf
    rw [← run_append, network_reap, reap_of_none hf]
  · intro m told hf
    obtain ⟨before, after, s, rfl, h⟩ := exists_crash ops hf
    obtain ⟨rfl, rfl⟩ : { s.member with status := .failed } = m ∧
        (run {} before).network.observers x s = told := by
      rw [h.entry] at hf
      exact Prod.mk.inj (Option.some.inj hf)
    obtain ⟨hn, hp⟩ := ordered_run before
    refine ⟨before, after, s, rfl, h.slot, rfl, fun y => ?_, fun y t ht => ⟨h.sent_reap ht, fun hy =>
      ⟨h.lastWord_iff ht hy, h.unwelcome t.mailbox⟩⟩⟩
    rw [mem_observers hp h.slot, ← knows_of_slot h.slot, and_comm]
    exact and_congr_right fun _ => ⟨hp.knows_symm, hp.knows_symm⟩

/-- Three members come together. One of them crashes, and another one leaves and is started anew. -/
def bereaved : List Op :=
  let engine (name : String) : Listener :=
    { engine := { member := { name := name, address := name ++ ":7946" } } }
  [.add "a" (engine "a"), .start "a", .add "b" (engine "b"), .start "b", .add "c" (engine "c"), .start "c",
    .join "b" ["a:7946"], .join "c" ["a:7946"], .fail "b", .shutdown "c", .add "new" (engine "c"), .start "new"]

theorem reap_tells_bereaved : ∃ m told, (run {} bereaved).network.failed["b"]? = some (m, told) ∧
    ((run {} bereaved).run [.reap "b"]).network.sent 0 =
      (run {} bereaved).network.sent 0 ++ [.members .reap [m]] ∧
    ∃ before after, bereaved = before ++ .fail "b" :: after ∧ 0 < (run {} before).network.mailboxes ∧
      ¬Welcomed "b" (sentSince before after "b" 0) := by
  have hb : ((run {} bereaved).network.failed["b"]?).any (fun p => decide (p.2 = ["a", "c"])) = true := by
    decide +kernel
  have ha : ((run {} bereaved).network.slots["a"]?).any (fun t => decide (t.mailbox = 0)) = true := by
    decide +kernel
  have hword : lastWord "b" ((run {} bereaved).network.sent 0) = some .failed := by decide +kernel
  obtain ⟨⟨m, told⟩, hf, hb⟩ := (Option.any_eq_true _ _).mp hb
  obtain ⟨t, ht, ha⟩ := (Option.any_eq_true _ _).mp ha
  have hmailbox := of_decide_eq_true ha
  have hmem : "a" ∈ told := by
    have htold : told = ["a", "c"] := of_decide_eq_true hb
    rw [htold]
    exact List.mem_cons_self ..
  obtain ⟨before, after, s, hops, -, -, -, htells⟩ := (reap_tells bereaved "b").2 m told hf
  obtain ⟨hsent, hlast⟩ := htells "a" t ht
  rw [hmailbox, if_pos hmem] at hsent
  rw [hmailbox] at hlast
  exact ⟨m, told, hf, hsent, before, after, hops, (hlast hmem).1.mp hword⟩

/-- The member that was started anew is told of the end of one that it has never heard of. If the crashed
member is back and knows the others again, they are told of its end nevertheless. -/
theorem reaped_to_strangers_and_friends :
    (run {} bereaved).network.sent 3 = [.members .join [{ name := "c", address := "c:7946" }]] ∧
    lastWord "b" ((run {} bereaved).network.sent 3) = none ∧
    ((run {} bereaved).run [.reap "b"]).network.sent 3 = (run {} bereaved).network.sent 3 ++
      [.members .reap [{ name := "b", address := "b:7946", status := .failed }]] ∧
    (let back := (run {} bereaved).run
      [.add "back" { engine := { member := { name := "b", address := "b:7946" } } }, .start "back",
        .join "back" ["a:7946"]]
    lastWord "b" (back.network.sent 0) = some .join ∧
    (back.network.view? "a").map (·.toList) = some ["a", "b"] ∧
    (back.run [.reap "b"]).network.sent 0 = back.network.sent 0 ++
      [.members .reap [{ name := "b", address := "b:7946", status := .failed }]]) := by
  decide +kernel

end Session

end ReplicatedTable.Gossip
