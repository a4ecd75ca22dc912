import Mathlib.Data.List.Nodup
import ReplicatedTable.Supervision.Group

/-!
# Endings of a group

What a group keeps of the endings of its tasks (`Recounts`): each task that has ended did so once, the endings
are taken in the order in which they came, and the first error among those that were taken is kept. Every
action adds to this (`Recounts.step`). So whoever waits is answered with the first error of all, after every
task has ended (`Recounts.result`).
-/
namespace ReplicatedTable

/-- The answer that endings amount to, in the order in which they came: the first error, if there is one. -/
def Ending.outcome (es : List Ending) : Except Error Unit :=
  (es.findSome? Ending.error?).elim (.ok ()) .error

namespace Group

variable {g g' : Group} {i j : Nat} {ends : List (Nat × Ending)}

/-- The task that an action brings to its end. -/
def Action.ending? : Action → Option (Nat × Ending)
  | .finish i e => some (i, e)
  | _ => none

/-! ## Actions -/

theorem of_begin (h : g.step? (.begin i) = some g') :
    g.mayBegin i = true ∧ g' = g.setProgress i .running := by
  simp only [step?] at h
  split at h
  · rename_i hmay
    cases h
    exact ⟨hmay, rfl⟩
  · cases h

theorem of_finish {e : Ending} (h : g.step? (.finish i e) = some g') :
    g.progress? i = some .running ∧ g' = g.finish i e := by
  simp only [step?] at h
  split at h
  · rename_i hrunning
    cases h
    exact ⟨hrunning, rfl⟩
  · cases h

theorem of_collect (h : g.step? .collect = some g') : ∃ e rest, g.pending = e :: rest ∧
    g' = { g with
      cancelled := g.cancelled || e.error?.isSome
      pending := rest
      firstError := g.firstError <|> e.error? } := by
  simp only [step?] at h
  split at h
  · cases h
  · rename_i e rest hpending
    cases h
    exact ⟨e, rest, hpending, rfl⟩

/-! ## Progress of single tasks -/

theorem progress?_setProgress_self {p q : Progress} (h : g.progress? i = some q) :
    (g.setProgress i p).progress? i = some p := by
  obtain ⟨t, ht, -⟩ := Option.map_eq_some_iff.mp h
  simp [progress?, setProgress, ht]

theorem progress?_setProgress_ne (p : Progress) (h : i ≠ j) :
    (g.setProgress i p).progress? j = g.progress? j := by
  simp [progress?, setProgress, h]

theorem ready_of_mayBegin (h : g.mayBegin i = true) : g.progress? i = some .ready := by
  unfold mayBegin at h
  split at h
  · rename_i t ht
    simp only [Bool.and_eq_true, beq_iff_eq] at h
    simp [progress?, ht, h.1]
  · cases h

/-- A task of the second kind begins after the signal. -/
theorem cancelled_of_begin {i : Nat} (hkind : (g.tasks.map Task.onCancel)[i]? = some true)
    (h : g.step? (.begin i) = some g') : g.cancelled = true := by
  rw [List.getElem?_map] at hkind
  obtain ⟨t, ht, honCancel⟩ := Option.map_eq_some_iff.mp hkind
  have hmay := (of_begin h).1
  simp only [mayBegin, ht, honCancel, Bool.not_true, Bool.false_or, Bool.and_eq_true] at hmay
  exact hmay.2

/-- A task that has begun does not become ready again. -/
theorem ready_of_step {a : Action} (h : g.step? a = some g') (hi : g'.progress? i = some .ready) :
    g.progress? i = some .ready := by
  have hset : ∀ {j : Nat} {p q : Progress}, g.progress? j = some q → p ≠ .ready →
      (g.setProgress j p).progress? i = some .ready → g.progress? i = some .ready := by
    intro j p q hj hp hready
    by_cases hji : j = i
    · subst hji
      rw [progress?_setProgress_self hj] at hready
      exact absurd (Option.some.inj hready) hp
    · rwa [progress?_setProgress_ne _ hji] at hready
  cases a with
  | cancel => cases h; exact hi
  | begin j =>
    obtain ⟨hmay, rfl⟩ := of_begin h
    exact hset (ready_of_mayBegin hmay) (by simp) hi
  | finish j e =>
    obtain ⟨hrunning, rfl⟩ := of_finish h
    exact hset (p := .ended e) hrunning (by simp) hi
  | collect =>
    obtain ⟨e, rest, -, rfl⟩ := of_collect h
    exact hi

/-- Actions leave the kinds of the tasks alone. -/
theorem kinds_step {a : Action} (h : g.step? a = some g') :
    g'.tasks.map Task.onCancel = g.tasks.map Task.onCancel := by
  have hset : ∀ (i : Nat) (p : Progress),
      (g.setProgress i p).tasks.map Task.onCancel = g.tasks.map Task.onCancel := by
    intro i p
    refine List.ext_getElem? fun k => ?_
    simp only [setProgress, List.getElem?_map, List.getElem?_modify]
    split <;> cases g.tasks[k]? <;> rfl
  cases a with
  | cancel => cases h; rfl
  | begin i =>
    obtain ⟨-, rfl⟩ := of_begin h
    exact hset i .running
  | finish i e =>
    obtain ⟨-, rfl⟩ := of_finish h
    exact hset i (.ended e)
  | collect =>
    obtain ⟨e, rest, -, rfl⟩ := of_collect h
    rfl

/-- The signal is not taken back. -/
theorem cancelled_step {a : Action} (h : g.step? a = some g') (hc : g.cancelled = true) :
    g'.cancelled = true := by
  cases a with
  | cancel => cases h; rfl
  | begin i =>
    obtain ⟨-, rfl⟩ := of_begin h
    exact hc
  | finish i e =>
    obtain ⟨-, rfl⟩ := of_finish h
    simp [finish, hc]
  | collect =>
    obtain ⟨e, rest, -, rfl⟩ := of_collect h
    simp [hc]

/-! ## All tasks -/

/-- What a group keeps of the endings that have come so far. -/
structure Recounts (g : Group) (ends : List (Nat × Ending)) : Prop where
  /-- The endings that were taken, and after them those that were not. -/
  order : ∃ taken, ends.map Prod.snd = taken ++ g.pending ∧
    g.firstError = taken.findSome? Ending.error?
  ended : ∀ i e, g.progress? i = some (.ended e) ↔ (i, e) ∈ ends
  once : (ends.map Prod.fst).Nodup

theorem recounts_ofKinds (onCancel : List Bool) : (ofKinds onCancel).Recounts [] where
  order := ⟨[], rfl, rfl⟩
  ended i e := by
    simp only [progress?, ofKinds, List.getElem?_map, Option.map_map, Option.map_eq_some_iff]
    constructor
    · rintro ⟨b, -, h⟩
      cases h
    · exact fun h => absurd h List.not_mem_nil
  once := List.nodup_nil

/-- A task that has not ended is not among the endings. -/
theorem Recounts.not_ended (h : g.Recounts ends) {p : Progress} (hp : g.progress? i = some p)
    (hne : ∀ e, p ≠ .ended e) : i ∉ ends.map Prod.fst := by
  intro hi
  obtain ⟨⟨k, e⟩, hmem, rfl⟩ := List.mem_map.mp hi
  have hended := (h.ended k e).mpr hmem
  rw [hp] at hended
  exact hne e (Option.some.inj hended)

theorem Recounts.begin (h : g.Recounts ends) (hi : g.mayBegin i = true) :
    (g.setProgress i .running).Recounts ends where
  order := h.order
  ended j e := by
    by_cases hij : i = j
    · subst hij
      rw [progress?_setProgress_self (ready_of_mayBegin hi)]
      refine ⟨fun hrun => (by cases hrun), fun hmem => ?_⟩
      exact absurd (List.mem_map_of_mem hmem) (h.not_ended (ready_of_mayBegin hi) (by simp))
    · rw [progress?_setProgress_ne _ hij, h.ended]
  once := h.once

theorem Recounts.finish (h : g.Recounts ends) {e : Ending} (hi : g.progress? i = some .running) :
    (g.finish i e).Recounts (ends ++ [(i, e)]) where
  order := by
    obtain ⟨taken, hends, hfirst⟩ := h.order
    exact ⟨taken, by simp [Group.finish, setProgress, hends], hfirst⟩
  ended j x := by
    show (g.setProgress i (.ended e)).progress? j = _ ↔ _
    rw [List.mem_append, List.mem_singleton]
    by_cases hij : i = j
    · subst hij
      rw [progress?_setProgress_self hi]
      constructor
      · intro hx
        cases hx
        exact Or.inr rfl
      · rintro (hmem | hx)
        · exact absurd (List.mem_map_of_mem hmem) (h.not_ended hi (by simp))
        · cases hx
          rfl
    · rw [progress?_setProgress_ne _ hij, h.ended]
      exact ⟨Or.inl, fun hx => hx.resolve_right fun hx => hij (Prod.mk.inj hx).1.symm⟩
  once := by
    rw [List.map_append, List.nodup_append]
    refine ⟨h.once, List.nodup_singleton i, fun a ha b hb hab => ?_⟩
    subst hab
    obtain rfl := List.mem_singleton.mp hb
    exact h.not_ended hi (by simp) ha

/-- An action adds the ending that it brings about. -/
theorem Recounts.step (h : g.Recounts ends) {a : Action} (hstep : g.step? a = some g') :
    g'.Recounts (ends ++ a.ending?.toList) := by
  cases a with
  | cancel =>
    cases hstep
    simpa [Action.ending?] using ⟨h.order, h.ended, h.once⟩
  | begin i =>
    obtain ⟨hmay, rfl⟩ := of_begin hstep
    simpa [Action.ending?] using h.begin hmay
  | finish i e =>
    obtain ⟨hrunning, rfl⟩ := of_finish hstep
    exact h.finish hrunning
  | collect =>
    obtain ⟨e, rest, hpending, rfl⟩ := of_collect hstep
    obtain ⟨taken, hends, hfirst⟩ := h.order
    rw [hpending] at hends
    have horder : ends.map Prod.snd = taken ++ [e] ++ rest := by
      rw [hends, List.append_assoc, List.singleton_append]
    simp only [Action.ending?, Option.toList_none, List.append_nil]
    refine ⟨⟨taken ++ [e], horder, ?_⟩, h.ended, h.once⟩
    rw [List.findSome?_append, ← hfirst, List.findSome?_singleton]
    exact Option.orElse_eq_or ..

/-- What every action keeps, a run keeps. -/
theorem run_induction {P : Group → Prop} {actions : List Action}
    (hP : ∀ a ∈ actions, ∀ {g g' : Group}, g.step? a = some g' → P g → P g')
    (hrun : g.run? actions = some g') (hg : P g) : P g' := by
  induction actions generalizing g with
  | nil =>
    cases hrun
    exact hg
  | cons a actions ih =>
    obtain ⟨x, hx, hrest⟩ := Option.bind_eq_some_iff.mp hrun
    exact ih (fun b hb => hP b (List.mem_cons_of_mem a hb)) hrest (hP a (List.mem_cons_self ..) hx hg)

/-- Whoever waits for a group is answered with what its endings amount to, once each task has ended. -/
theorem Recounts.result (h : g.Recounts ends) {answer : Except Error Unit}
    (hanswer : g.result? = some answer) :
    answer = Ending.outcome (ends.map Prod.snd) ∧
      (ends.map Prod.fst).Perm (List.range g.tasks.length) := by
  unfold result? at hanswer
  split at hanswer
  · rename_i hcomplete
    simp only [complete, Bool.and_eq_true, List.isEmpty_iff, List.all_eq_true] at hcomplete
    obtain ⟨hpending, hall⟩ := hcomplete
    cases hanswer
    obtain ⟨taken, hends, hfirst⟩ := h.order
    rw [hpending, List.append_nil] at hends
    refine ⟨by rw [Ending.outcome, hends, hfirst], ?_⟩
    refine (List.perm_ext_iff_of_nodup h.once List.nodup_range).mpr fun i => ?_
    rw [List.mem_range, List.mem_map]
    constructor
    · rintro ⟨⟨k, e⟩, hmem, rfl⟩
      obtain ⟨t, ht, -⟩ := Option.map_eq_some_iff.mp ((h.ended k e).mpr hmem)
      exact (List.getElem?_eq_some_iff.mp ht).1
    · intro hi
      have hended := hall _ (List.getElem_mem hi)
      split at hended
      · rename_i e he
        exact ⟨(i, e), (h.ended i e).mp (by simp [progress?, hi, he]), rfl⟩
      · cases hended
  · cases hanswer

end Group

end ReplicatedTable
