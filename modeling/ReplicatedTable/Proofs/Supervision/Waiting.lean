import Mathlib.Data.List.Induction
import ReplicatedTable.Proofs.Supervision.Group

/-!
# Waiting for a group

What becomes of a group can be told from its actions alone: which endings were taken so far (`takenOf`), and
whether the signal was given (`Signalled`). One action keeps this (`Follows.step`), hence a run does. So tasks of
the second kind begin after the signal, an error has led to the signal by the time it is taken, and whoever waits
is answered after all tasks have ended, with the first error that came (`supervised`).
-/
namespace ReplicatedTable.Group

variable {kinds : List Bool} {actions : List Action} {g g' : Group} {a : Action}

/-! ## What actions tell -/

/-- The tasks that were brought to their ends, in this order, each with its ending. -/
def endingsOf (actions : List Action) : List (Nat × Ending) := actions.filterMap Action.ending?

/-- How many endings were taken. -/
def takings (actions : List Action) : Nat := actions.count .collect

/-- The endings that were taken: of those that came the first ones. -/
def takenOf (actions : List Action) : List (Nat × Ending) := (endingsOf actions).take (takings actions)

/-- The signal was given: by somebody, by a task that failed, or when the ending of a task that panicked was
taken. -/
def Signalled (actions : List Action) : Prop :=
  .cancel ∈ actions ∨ (∃ p ∈ endingsOf actions, ∃ e, p.2 = .failed e) ∨
    ∃ p ∈ takenOf actions, ∃ report, p.2 = .panicked report

theorem endingsOf_concat (actions : List Action) (a : Action) :
    endingsOf (actions ++ [a]) = endingsOf actions ++ a.ending?.toList := by
  rw [endingsOf, List.filterMap_append, ← endingsOf]
  cases h : a.ending? <;> simp [h]

theorem takings_concat (actions : List Action) (a : Action) :
    takings (actions ++ [a]) = takings actions + if a = .collect then 1 else 0 := by
  rw [takings, List.count_append, List.count_singleton, takings]
  simp [beq_iff_eq]

/-- What the actions so far have told about a group. -/
structure Follows (g : Group) (actions : List Action) : Prop where
  recounts : g.Recounts (endingsOf actions)
  pending : g.pending = ((endingsOf actions).drop (takings actions)).map Prod.snd
  came : takings actions ≤ (endingsOf actions).length
  signal : g.cancelled = true ↔ Signalled actions

theorem follows_ofKinds (kinds : List Bool) : (ofKinds kinds).Follows [] where
  recounts := recounts_ofKinds kinds
  pending := rfl
  came := Nat.le_refl 0
  signal := by simp [ofKinds, Signalled, endingsOf, takenOf]

/-! ## One action -/

/-- An action by which no ending comes and none is taken. -/
theorem Follows.quiet (h : g.Follows actions) (hstep : g.step? a = some g') (hends : a.ending? = none)
    (ha : a ≠ .collect) (hpending : g'.pending = g.pending)
    (hsignal : g'.cancelled = true ↔ a = .cancel ∨ g.cancelled = true) : g'.Follows (actions ++ [a]) := by
  have hall : endingsOf (actions ++ [a]) = endingsOf actions := by simp [endingsOf_concat, hends]
  have hcount : takings (actions ++ [a]) = takings actions := by simp [takings_concat, ha]
  have htaken : takenOf (actions ++ [a]) = takenOf actions := by rw [takenOf, hall, hcount, takenOf]
  refine ⟨?_, ?_, ?_, ?_⟩
  · simpa [endingsOf_concat] using h.recounts.step hstep
  · rw [hall, hcount, hpending, h.pending]
  · rw [hall, hcount]
    exact h.came
  · rw [hsignal, h.signal, Signalled, Signalled, htaken, hall, List.mem_append, List.mem_singleton,
      eq_comm (a := a), ← or_assoc, or_comm (a := _ = a)]

theorem Follows.finish (h : g.Follows actions) {i : Nat} {e : Ending}
    (hstep : g.step? (.finish i e) = some g') : g'.Follows (actions ++ [.finish i e]) := by
  have hall : endingsOf (actions ++ [Action.finish i e]) = endingsOf actions ++ [(i, e)] :=
    endingsOf_concat ..
  have hcount : takings (actions ++ [Action.finish i e]) = takings actions := by simp [takings_concat]
  have htaken : takenOf (actions ++ [Action.finish i e]) = takenOf actions := by
    rw [takenOf, hall, hcount, List.take_append_of_le_length h.came, takenOf]
  have hrecounts := h.recounts.step hstep
  obtain ⟨-, rfl⟩ := of_finish hstep
  refine ⟨hall ▸ hrecounts, ?_, ?_, ?_⟩
  · rw [hall, hcount, List.drop_append_of_le_length h.came, List.map_append, ← h.pending]
    rfl
  · rw [hall, hcount, List.length_append]
    exact Nat.le_add_right_of_le h.came
  · have hsignal := h.signal
    rw [Signalled] at hsignal ⊢
    rw [htaken, hall]
    cases e <;> simp [Group.finish, setProgress, hsignal, or_and_right, exists_or]

theorem Follows.collect (h : g.Follows actions) (hstep : g.step? .collect = some g') :
    g'.Follows (actions ++ [.collect]) := by
  have hall : endingsOf (actions ++ [Action.collect]) = endingsOf actions := by
    simp [endingsOf_concat, Action.ending?]
  have hcount : takings (actions ++ [Action.collect]) = takings actions + 1 := by simp [takings_concat]
  have hrecounts := h.recounts.step hstep
  obtain ⟨e, rest, hpending, rfl⟩ := of_collect hstep
  -- the ending that is taken is the first of those that were not taken so far
  obtain ⟨p, others, hdrop, hp, hrest⟩ := List.map_eq_cons_iff.mp (h.pending.symm.trans hpending)
  have hlt : takings actions < (endingsOf actions).length := by
    by_contra hge
    rw [List.drop_eq_nil_of_le (Nat.le_of_not_lt hge)] at hdrop
    cases hdrop
  obtain ⟨hnext, hothers⟩ := List.cons.inj ((List.drop_eq_getElem_cons hlt).symm.trans hdrop)
  have htaken : takenOf (actions ++ [Action.collect]) = takenOf actions ++ [p] := by
    rw [takenOf, hall, hcount, List.take_add_one, List.getElem?_eq_getElem hlt, hnext, takenOf]
    rfl
  have hmem : p ∈ endingsOf actions := hnext ▸ List.getElem_mem hlt
  refine ⟨?_, ?_, ?_, ?_⟩
  · simpa [endingsOf_concat] using hrecounts
  · rw [hall, hcount, hothers, hrest]
  · rw [hall, hcount]
    exact hlt
  · have hsignal := h.signal
    rw [Signalled] at hsignal ⊢
    rw [htaken, hall]
    subst hp
    have htells : g.cancelled = true ∨ (p.2.error?.isSome = true) ↔
        (.cancel ∈ actions ∨ (∃ p ∈ endingsOf actions, ∃ e, p.2 = .failed e) ∨
          ∃ p ∈ takenOf actions, ∃ report, p.2 = .panicked report) ∨ ∃ report, p.2 = .panicked report := by
      rw [hsignal]
      cases he : p.2 with
      | done => simp [Ending.error?]
      | failed e => exact iff_of_true (.inr rfl) (.inl (.inr (.inl ⟨p, hmem, e, he⟩)))
      | panicked report => simp [Ending.error?]
    simpa [or_and_right, exists_or, or_assoc] using htells

/-- An action keeps what was told before, and adds its part. -/
theorem Follows.step (h : g.Follows actions) (hstep : g.step? a = some g') : g'.Follows (actions ++ [a]) := by
  cases a with
  | cancel =>
    refine h.quiet hstep rfl (by simp) ?_ ?_ <;> cases hstep
    · rfl
    · simp
  | begin i =>
    refine h.quiet hstep rfl (by simp) ?_ ?_ <;> obtain ⟨-, rfl⟩ := of_begin hstep
    · rfl
    · simp [setProgress]
  | finish i e => exact h.finish hstep
  | collect => exact h.collect hstep

/-! ## Runs -/

theorem run?_append (g : Group) (before after : List Action) :
    g.run? (before ++ after) = (g.run? before).bind fun x => x.run? after := by
  simp [run?, List.foldlM_append, Option.bind_eq_bind]

theorem follows_run (h : (ofKinds kinds).run? actions = some g) : g.Follows actions := by
  induction actions using List.reverseRecOn generalizing g with
  | nil =>
    cases h
    exact follows_ofKinds kinds
  | append_singleton actions a ih =>
    rw [run?_append] at h
    obtain ⟨x, hx, hlast⟩ := Option.bind_eq_some_iff.mp h
    obtain ⟨y, hy, hrest⟩ := Option.bind_eq_some_iff.mp hlast
    cases hrest
    exact (ih hx).step hy

theorem kinds_run (h : (ofKinds kinds).run? actions = some g) : g.tasks.map Task.onCancel = kinds := by
  refine run_induction (P := fun g => g.tasks.map Task.onCancel = kinds)
    (fun _ _ _ _ hstep hk => (kinds_step hstep).trans hk) h ?_
  simp [ofKinds, Function.comp_def]

/-- The endings that are left can be taken one after the other. -/
theorem collect_all (g : Group) : ∃ g', g.run? (List.replicate g.pending.length .collect) = some g' ∧
    g'.pending = [] ∧ g'.tasks = g.tasks := by
  generalize hn : g.pending.length = n
  induction n generalizing g with
  | zero => exact ⟨g, rfl, List.eq_nil_of_length_eq_zero hn, rfl⟩
  | succ n ih =>
    obtain ⟨e, rest, hpending⟩ := List.exists_cons_of_length_eq_add_one hn
    have hstep : g.step? .collect = some { g with
        cancelled := g.cancelled || e.error?.isSome
        pending := rest
        firstError := g.firstError <|> e.error? } := by
      simp only [step?, hpending]
    rw [hpending, List.length_cons, Nat.add_right_cancel_iff] at hn
    obtain ⟨g', hrun, hnone, htasks⟩ := ih { g with
        cancelled := g.cancelled || e.error?.isSome
        pending := rest
        firstError := g.firstError <|> e.error? } hn
    exact ⟨g', Option.bind_eq_some_iff.mpr ⟨_, hstep, hrun⟩, hnone, htasks⟩

/-- Endings that all went well amount to a good answer, and otherwise the first one that did not decides. -/
theorem outcome_of_first {front back : List Ending} {e : Ending} {error : Error}
    (hfront : ∀ x ∈ front, x = .done) (he : e.error? = some error) :
    Ending.outcome (front ++ e :: back) = .error error := by
  have hnone : front.findSome? Ending.error? = none :=
    List.findSome?_eq_none_iff.mpr fun x hx => by rw [hfront x hx]; rfl
  rw [Ending.outcome, List.findSome?_append, hnone, Option.none_or, List.findSome?_cons, he]
  rfl

theorem outcome_of_done {es : List Ending} (h : ∀ x ∈ es, x = .done) : Ending.outcome es = .ok () := by
  have hnone : es.findSome? Ending.error? = none :=
    List.findSome?_eq_none_iff.mpr fun x hx => by rw [h x hx]; rfl
  rw [Ending.outcome, hnone]
  rfl

/-- Once each task has ended, whoever waits is answered after the endings that are left were taken. -/
theorem answered_of_ended (h : g.Follows actions)
    (hends : ∀ i < g.tasks.length, i ∈ (endingsOf actions).map Prod.fst) :
    ∃ n g', g.run? (List.replicate n .collect) = some g' ∧ g'.result?.isSome := by
  obtain ⟨g', hrun, hpending, htasks⟩ := collect_all g
  refine ⟨_, g', hrun, ?_⟩
  have hcomplete : g'.complete = true := by
    simp only [complete, hpending, htasks, List.isEmpty_nil, Bool.true_and, List.all_eq_true]
    intro t ht
    obtain ⟨i, hi, rfl⟩ := List.mem_iff_getElem.mp ht
    obtain ⟨⟨k, e⟩, hmem, rfl⟩ := List.mem_map.mp (hends i hi)
    obtain ⟨t, ht, hprogress⟩ := Option.map_eq_some_iff.mp ((h.recounts.ended k e).mpr hmem)
    rw [(List.getElem?_eq_some_iff.mp ht).2, hprogress]
  rw [result?, if_pos hcomplete]
  rfl

/-- What holds of a group in every order in which its tasks may run and end. A task of the second kind begins
only after the signal. Once an ending that is an error was taken, the signal has been given. Whoever waits is
answered only after each task has ended, once, and the answer is good if all endings were; otherwise it is the
first error, in the order in which the endings came. And when each task has ended, an answer is near. -/
theorem supervised (h : (ofKinds kinds).run? actions = some g) :
    (∀ before i after, actions = before ++ .begin i :: after → kinds[i]? = some true → Signalled before) ∧
      (∀ p ∈ takenOf actions, p.2 ≠ .done → g.cancelled = true) ∧
      (g.cancelled = true ↔ Signalled actions) ∧
      (∀ answer, g.result? = some answer →
        ((endingsOf actions).map Prod.fst).Perm (List.range kinds.length) ∧
          ((∀ p ∈ endingsOf actions, p.2 = .done) → answer = .ok ()) ∧
          ∀ front i e back error, endingsOf actions = front ++ (i, e) :: back →
            (∀ p ∈ front, p.2 = .done) → e.error? = some error → answer = .error error) ∧
      ((∀ i < kinds.length, i ∈ (endingsOf actions).map Prod.fst) →
        ∃ n g', g.run? (List.replicate n .collect) = some g' ∧ g'.result?.isSome) := by
  have hfollows := follows_run h
  have hlength : g.tasks.length = kinds.length := by rw [← kinds_run h, List.length_map]
  refine ⟨?_, ?_, hfollows.signal, ?_, ?_⟩
  · intro before i after hactions hkind
    rw [hactions, run?_append] at h
    obtain ⟨x, hx, hrest⟩ := Option.bind_eq_some_iff.mp h
    obtain ⟨y, hbegin, -⟩ := Option.bind_eq_some_iff.mp hrest
    rw [← kinds_run hx] at hkind
    exact (follows_run hx).signal.mp (cancelled_of_begin hkind hbegin)
  · rintro ⟨i, e⟩ htaken hne
    refine hfollows.signal.mpr (.inr ?_)
    cases e with
    | done => exact absurd rfl hne
    | failed e => exact .inl ⟨_, List.mem_of_mem_take htaken, e, rfl⟩
    | panicked report => exact .inr ⟨_, htaken, report, rfl⟩
  · intro answer hanswer
    obtain ⟨rfl, hall⟩ := hfollows.recounts.result hanswer
    refine ⟨hlength ▸ hall, fun hdone => outcome_of_done ?_, fun front i e back error hends hfront he => ?_⟩
    · exact List.forall_mem_map.mpr hdone
    · rw [hends, List.map_append, List.map_cons]
      exact outcome_of_first (List.forall_mem_map.mpr hfront) he
  · intro hends
    exact answered_of_ended hfollows (hlength ▸ hends)

/-- A task panics before the signal, and another one fails after it: whoever waits is told of the panic, and only
the taking of its ending lets the task in the middle begin. -/
theorem supervised_of_panic :
    ∃ g, (ofKinds [false, true, false]).run? [.begin 0, .begin 2, .finish 2 (.panicked "index"), .collect,
        .begin 1, .finish 1 (.failed .shutdown), .finish 0 .done, .collect, .collect] = some g ∧
      g.cancelled = true ∧
        ∀ answer, g.result? = some answer → answer = .error (.internal (.panicked "index")) := by
  refine ⟨_, rfl, ?_⟩
  have hrun : (ofKinds [false, true, false]).run? [.begin 0, .begin 2, .finish 2 (.panicked "index"), .collect,
      .begin 1, .finish 1 (.failed .shutdown), .finish 0 .done, .collect, .collect] = some _ := rfl
  obtain ⟨-, htaken, -, hanswer, -⟩ := supervised hrun
  refine ⟨htaken (2, .panicked "index") (by decide) (by decide), fun answer h => ?_⟩
  exact (hanswer answer h).2.2 [] 2 (.panicked "index") _ _ rfl (by simp) rfl

end ReplicatedTable.Group
