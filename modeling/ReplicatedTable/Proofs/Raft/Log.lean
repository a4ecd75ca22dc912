import ReplicatedTable.Raft.Log

/-!
# Comparing and joining logs

A leader compares the terms of its log with those of a follower and sends what lies behind the common
front. `splice_agreement` says what the follower's log is then: what it was if the leader has nothing more,
and otherwise the common front followed by the rest of the leader's log, unless an applied entry would have
to go. `lastTerm_cases` and `upToDate_iff` open the comparison on which votes depend.
-/
namespace ReplicatedTable.Raft.Log

theorem prefix_of_eq {α : Type} {a b : List α} (h : a = b) : a <+: b := h ▸ List.prefix_rfl

/-! ## The common front -/

theorem agreement_le_left : ∀ a b : Log, agreement a b ≤ a.length
  | [], _ => by simp [agreement]
  | _ :: _, [] => by simp [agreement]
  | x :: a, y :: b => by
    have := agreement_le_left a b
    simp only [agreement, List.length_cons]
    split <;> omega

theorem agreement_le_right : ∀ a b : Log, agreement a b ≤ b.length
  | [], _ => by simp [agreement]
  | _ :: _, [] => by simp [agreement]
  | x :: a, y :: b => by
    have := agreement_le_right a b
    simp only [agreement, List.length_cons]
    split <;> omega

theorem agreement_terms : ∀ (a b : Log) (k : Nat), k < agreement a b →
    (a[k]?).map Entry.term = (b[k]?).map Entry.term
  | [], _, _, h => by simp [agreement] at h
  | _ :: _, [], _, h => by simp [agreement] at h
  | x :: a, y :: b, k, h => by
    simp only [agreement] at h
    split at h
    · rename_i hxy
      cases k with
      | zero => simp [hxy]
      | succ k => simpa using agreement_terms a b k (by omega)
    · omega

/-- The logs differ where the common front ends. -/
theorem agreement_maximal : ∀ (a b : Log) {x y : Entry}, a[agreement a b]? = some x →
    b[agreement a b]? = some y → x.term ≠ y.term
  | [], _, _, _, hx, _ => by simp [agreement] at hx
  | _ :: _, [], _, _, _, hy => by simp [agreement] at hy
  | u :: a, v :: b, x, y, hx, hy => by
    by_cases huv : u.term = v.term
    · simp only [agreement, huv, if_true, List.getElem?_cons_succ] at hx hy
      exact agreement_maximal a b hx hy
    · simp only [agreement, huv, if_false, List.getElem?_cons_zero, Option.some.injEq] at hx hy
      subst hx hy
      exact huv

/-- At the end of a common front that is not empty the logs have entries of one term. -/
theorem at?_agreement (a b : Log) (h : agreement a b ≠ 0) :
    (b.at? (agreement a b)).map Entry.term =
      some (((a.at? (agreement a b)).map Entry.term).getD 0) := by
  obtain ⟨k, hk⟩ := Nat.exists_eq_succ_of_ne_zero h
  have hterms := agreement_terms a b k (by omega)
  have hlen := agreement_le_left a b
  have hget : a[k]? = some a[k] := List.getElem?_eq_getElem (by omega)
  rw [hk]
  simp only [at?, ← hterms, hget, Option.map_some, Option.getD_some]

/-! ## What a follower keeps -/

/-- The log of a follower that takes what lies behind the common front. -/
def merge (log leader : Log) : Log :=
  if leader.length ≤ agreement leader log then log
  else log.take (agreement leader log) ++ leader.drop (agreement leader log)

theorem splice_agreement (log leader : Log) {applied : Nat} (happ : applied ≤ log.length) :
    splice log applied (agreement leader log) (leader.drop (agreement leader log)) =
      if agreement leader log < applied ∧ agreement leader log < leader.length then
        .error (agreement leader log + 1)
      else .ok (merge log leader) := by
  have hr := agreement_le_right leader log
  by_cases hl : agreement leader log < leader.length
  · have hm : merge log leader = log.take (agreement leader log) ++ leader.drop (agreement leader log) :=
      if_neg (by omega)
    rw [hm, List.drop_eq_getElem_cons hl, splice]
    cases hold : log[agreement leader log]? with
    | none =>
      have hlen := List.getElem?_eq_none_iff.mp hold
      have ha : ¬agreement leader log < applied := by omega
      simp only [ha, false_and, if_false, List.take_of_length_le hlen]
    | some old =>
      have hne := agreement_maximal leader log (List.getElem?_eq_getElem hl) hold
      by_cases ha : agreement leader log < applied
      · simp [Ne.symm hne, ha, hl]
      · simp [Ne.symm hne, ha]
  · have hm : merge log leader = log := if_pos (by omega)
    rw [hm, List.drop_of_length_le (by omega), if_neg (by omega), splice]

/-- Where the entries of the common front are the same, a follower ends up with the leader's log, or has
had it as a part before. -/
theorem merge_cases {log leader : Log}
    (h : leader.take (agreement leader log) = log.take (agreement leader log)) :
    merge log leader = leader ∨ merge log leader = log ∧ leader <+: log := by
  unfold merge
  split
  · rename_i hle
    rw [List.take_of_length_le hle] at h
    exact Or.inr ⟨rfl, h ▸ List.take_prefix ..⟩
  · left
    rw [← h, List.take_append_drop]

theorem agreement_of_prefix {log leader : Log} (h : log <+: leader) :
    agreement leader log = log.length := by
  refine Nat.le_antisymm (agreement_le_right leader log) (Nat.le_of_not_lt fun hlt => ?_)
  have hleader := List.getElem?_eq_getElem (Nat.lt_of_lt_of_le hlt h.length_le)
  exact agreement_maximal leader log hleader (List.getElem?_eq_getElem hlt)
    (congrArg Entry.term (h.getElem hlt).symm)

/-- A follower that has a part of the leader's log ends up with all of it. -/
theorem merge_of_prefix {log leader : Log} (h : log <+: leader) : merge log leader = leader := by
  obtain ⟨rest, rfl⟩ := h
  have hle := agreement_le_right (log ++ rest) log
  rcases merge_cases (List.take_append_of_le_length hle) with e | ⟨e, hpre⟩ <;> rw [e]
  exact (List.prefix_append ..).eq_of_length_le hpre.length_le

/-- Where the common front takes in the applied entries, or the leader has nothing more, merging keeps
them. -/
theorem merge_front {log leader : Log} {applied : Nat} (happ : applied ≤ log.length)
    (h : applied ≤ agreement leader log ∨ leader.length ≤ agreement leader log) :
    applied ≤ (merge log leader).length ∧ (merge log leader).take applied = log.take applied := by
  unfold merge
  split
  · exact ⟨happ, rfl⟩
  · have hle : applied ≤ agreement leader log := by omega
    have hr := agreement_le_right leader log
    have hlen : (log.take (agreement leader log)).length = agreement leader log := by
      rw [List.length_take]; omega
    refine ⟨by rw [List.length_append]; omega, ?_⟩
    rw [List.take_append_of_le_length (by omega), List.take_take, Nat.min_eq_left hle]

/-- Every entry of a merged log comes from one of the two, at the same place. -/
theorem merge_getElem? {log leader : Log} {k : Nat} {e : Entry}
    (h : (merge log leader)[k]? = some e) : log[k]? = some e ∨ leader[k]? = some e := by
  unfold merge at h
  split at h
  · exact Or.inl h
  rw [List.getElem?_append] at h
  split at h
  · rename_i hlt
    rw [List.length_take] at hlt
    rw [List.getElem?_take_of_lt (by omega)] at h
    exact Or.inl h
  · rename_i hle
    have hl := agreement_le_left leader log
    have hr := agreement_le_right leader log
    rw [List.length_take] at h hle
    rw [List.getElem?_drop, show agreement leader log + (k - min (agreement leader log) log.length) = k by
      omega] at h
    exact Or.inr h

/-- An entry of a merged log comes from one of the two. -/
theorem mem_merge {log leader : Log} {e : Entry} (h : e ∈ merge log leader) : e ∈ log ∨ e ∈ leader := by
  obtain ⟨k, hk⟩ := List.mem_iff_getElem?.mp h
  rcases merge_getElem? hk with hk | hk
  · exact Or.inl (List.mem_of_getElem? hk)
  · exact Or.inr (List.mem_of_getElem? hk)

/-! ## Logs that cover another -/

/-- A log has an entry of the same term at every place of another one. -/
def Covers (log other : Log) : Prop := agreement other log = other.length

theorem le_agreement : ∀ {a b : Log} {m : Nat}, m ≤ a.length →
    (∀ k < m, (a[k]?).map Entry.term = (b[k]?).map Entry.term) → m ≤ agreement a b
  | _, _, 0, _, _ => Nat.zero_le _
  | x :: a, [], m + 1, _, h => by simpa using h 0 (by omega)
  | x :: a, y :: b, m + 1, hm, h => by
    have hxy : x.term = y.term := by simpa using h 0 (by omega)
    have htail : m ≤ agreement a b := le_agreement (by simpa using hm) fun k hk => by
      simpa using h (k + 1) (by omega)
    simpa [agreement, hxy] using htail

/-- Logs agree on a front that they share. -/
theorem le_agreement_of_front {front a b : Log} (ha : front <+: a) (hb : front <+: b) :
    front.length ≤ agreement a b := by
  obtain ⟨x, rfl⟩ := ha
  obtain ⟨y, rfl⟩ := hb
  refine le_agreement (by rw [List.length_append]; omega) fun k hk => ?_
  rw [List.getElem?_append_left hk, List.getElem?_append_left hk]

theorem covers_of_terms {log other : Log}
    (h : ∀ k < other.length, (other[k]?).map Entry.term = (log[k]?).map Entry.term) :
    Covers log other :=
  Nat.le_antisymm (agreement_le_left ..) (le_agreement (Nat.le_refl _) h)

theorem covers_merge (log leader : Log) : Covers (merge log leader) leader := by
  have hl := agreement_le_left leader log
  have hr := agreement_le_right leader log
  refine covers_of_terms fun k hk => ?_
  unfold merge
  split
  · exact agreement_terms leader log k (by omega)
  rw [List.getElem?_append, List.length_take]
  split
  · rw [List.getElem?_take_of_lt (by omega)]
    exact agreement_terms leader log k (by omega)
  · rw [List.getElem?_drop]
    congr 2
    omega

theorem Covers.term {log other : Log} (h : Covers log other) {k : Nat} {e : Entry}
    (he : other[k]? = some e) : ∃ x, log[k]? = some x ∧ x.term = e.term := by
  have hlt := (List.getElem?_eq_some_iff.mp he).1
  have hterm := agreement_terms other log k (by rw [h]; exact hlt)
  rw [he, Option.map_some] at hterm
  obtain ⟨x, hx, hxe⟩ := Option.map_eq_some_iff.mp hterm.symm
  exact ⟨x, hx, hxe⟩

/-! ## Logs that match -/

/-- Logs that have entries of one term at one place are the same up to there. -/
def Matches (a b : Log) : Prop :=
  ∀ (k : Nat) (x y : Entry), a[k]? = some x → b[k]? = some y → x.term = y.term →
    a.take (k + 1) = b.take (k + 1)

theorem Matches.refl (a : Log) : Matches a a := fun _ _ _ _ _ _ => rfl

theorem Matches.symm {a b : Log} (h : Matches a b) : Matches b a := fun k x y hx hy hxy =>
  (h k y x hy hx hxy.symm).symm

theorem matches_nil (a : Log) : Matches a [] := fun k x y _ hy _ => by simp at hy

/-- The common front of logs that match is the same. -/
theorem Matches.front {a b : Log} (h : Matches a b) :
    a.take (agreement a b) = b.take (agreement a b) := by
  by_cases h0 : agreement a b = 0
  · rw [h0, List.take_zero, List.take_zero]
  · obtain ⟨k, hk⟩ := Nat.exists_eq_succ_of_ne_zero h0
    have hla := agreement_le_left a b
    have hlb := agreement_le_right a b
    have hterm := agreement_terms a b k (by omega)
    have hx : a[k]? = some a[k] := List.getElem?_eq_getElem (by omega)
    have hy : b[k]? = some b[k] := List.getElem?_eq_getElem (by omega)
    rw [hx, hy, Option.map_some, Option.map_some, Option.some.injEq] at hterm
    rw [hk]
    exact h k a[k] b[k] hx hy hterm

/-- A follower whose log matches the leader's ends up with one of the two, and holds the leader's. -/
theorem Matches.merge {log leader : Log} (h : Matches leader log) :
    (merge log leader = log ∨ merge log leader = leader) ∧ leader <+: Log.merge log leader := by
  rcases merge_cases h.front with e | ⟨e, hpre⟩ <;> rw [e]
  · exact ⟨Or.inr rfl, List.prefix_rfl⟩
  · exact ⟨Or.inl rfl, hpre⟩

/-- Logs still match when one of them gets an entry of a term that the other one does not have there. -/
theorem Matches.concat {a b : Log} (h : Matches a b) {e : Entry}
    (hnew : ∀ y, b[a.length]? = some y → y.term ≠ e.term) : Matches (a ++ [e]) b := by
  intro k x y hx hy hxy
  have hk := (List.getElem?_eq_some_iff.mp hx).1
  rw [List.length_append, List.length_singleton] at hk
  by_cases hlast : k = a.length
  · subst hlast
    rw [List.getElem?_concat_length] at hx
    cases hx
    exact absurd hxy.symm (hnew y hy)
  · rw [List.getElem?_append_left (by omega)] at hx
    rw [List.take_append_of_le_length (by omega)]
    exact h k x y hx hy hxy

/-! ## The comparison of votes -/

theorem lastTerm_cases (log : Log) :
    log = [] ∧ lastTerm log = 0 ∨
      ∃ e, log[log.length - 1]? = some e ∧ log ≠ [] ∧ lastTerm log = e.term := by
  cases hl : log.getLast? with
  | none => exact Or.inl ⟨List.getLast?_eq_none_iff.mp hl, by simp [lastTerm, hl]⟩
  | some e =>
    refine Or.inr ⟨e, ?_, ?_, by simp [lastTerm, hl]⟩
    · rw [← hl, List.getLast?_eq_getElem?]
    · rintro rfl
      simp at hl

@[simp] theorem lastTerm_append (log : Log) (e : Entry) : lastTerm (log ++ [e]) = e.term := by
  simp [lastTerm]

theorem upToDate_iff {log other : Log} : upToDate log other = true ↔
    lastTerm log < lastTerm other ∨ lastTerm log = lastTerm other ∧ log.length ≤ other.length := by
  simp [upToDate]

end ReplicatedTable.Raft.Log
