import Mathlib.Logic.Function.Basic
import ReplicatedTable.Proofs.Raft.Log

/-!
# The history of a group

A `Chronicle` keeps what the state of a group forgets: who led at each term, the log of each of these
leaders as it was last (the book of the term), and the entries that are decided, which no later leader may
lack. A log is traced if each of its fronts that ends with an entry of a term is a front of the book of this
term; two traced logs with entries of one term at one place are the same up to there (`Traced.matches`).

`upToDate_decided` is the point of comparing logs in elections: if a voter's log holds what is decided, and
the voter grants its vote, then the candidate's log holds it too.
-/
namespace ReplicatedTable.Raft

open Log

structure Chronicle where
  /-- The replica that led at a term. -/
  leader : Nat → Option Nat
  /-- The log of the leader of a term, with all that it appended at this term. -/
  book : Nat → Log
  decided : Log

namespace Chronicle

/-- Somebody led at the term. -/
def Elected (g : Chronicle) (term : Nat) : Prop := (g.leader term).isSome

/-- Every front of the log is a front of the book of its last entry's term. -/
def Traced (g : Chronicle) (log : Log) : Prop :=
  ∀ (k : Nat) (e : Entry), log[k]? = some e → g.Elected e.term ∧ log.take (k + 1) <+: g.book e.term

structure Coherent (g : Chronicle) : Prop where
  traced : ∀ t, g.Elected t → g.Traced (g.book t)
  bounded : ∀ t, g.Elected t → ∀ e ∈ g.book t, e.term ≤ t
  decided : g.Traced g.decided
  /-- No later leader lacks what is decided. -/
  complete : ∀ t, g.Elected t → lastTerm g.decided ≤ t → g.decided <+: g.book t

variable {g : Chronicle}

theorem elected_of_leader {t i : Nat} (h : g.leader t = some i) : g.Elected t := by
  unfold Elected
  rw [h]
  rfl

/-! ## Traced logs -/

/-- Traced logs match, as they are fronts of the same books. -/
theorem Traced.matches {a b : Log} (ha : g.Traced a) (hb : g.Traced b) : Matches a b := by
  intro k x y hx hy hxy
  have hla := (List.getElem?_eq_some_iff.mp hx).1
  have hlb := (List.getElem?_eq_some_iff.mp hy).1
  have hpa := (ha k x hx).2
  have hpb := (hb k y hy).2
  rw [← hxy] at hpb
  have hlen : (a.take (k + 1)).length = (b.take (k + 1)).length := by
    rw [List.length_take, List.length_take]
    omega
  rcases List.prefix_or_prefix_of_prefix hpa hpb with h | h
  · exact h.eq_of_length hlen
  · exact (h.eq_of_length hlen.symm).symm

/-- What a follower ends up with holds the leader's log. -/
theorem Traced.merge {log leader : Log} (hlog : g.Traced log) (hleader : g.Traced leader) :
    g.Traced (merge log leader) ∧ leader <+: Log.merge log leader := by
  obtain ⟨e | e, hpre⟩ := (hleader.matches hlog).merge <;> rw [e] at hpre ⊢
  · exact ⟨hlog, hpre⟩
  · exact ⟨hleader, hpre⟩

/-- A traced log is a front of the book of its last term. -/
theorem Traced.prefix_book {a : Log} (h : g.Traced a) (hne : a ≠ []) :
    g.Elected (lastTerm a) ∧ a <+: g.book (lastTerm a) := by
  rcases lastTerm_cases a with ⟨rfl, -⟩ | ⟨e, he, -, ht⟩
  · exact absurd rfl hne
  · have hlen : 0 < a.length := List.length_pos_iff.mpr hne
    have hlast := h _ e he
    rw [Nat.sub_add_cancel hlen, List.take_length] at hlast
    rw [ht]
    exact hlast

/-- The last entry of a traced log is of the latest term. -/
theorem Traced.term_le_lastTerm (hg : g.Coherent) {a : Log} (h : g.Traced a) {e : Entry}
    (he : e ∈ a) : e.term ≤ lastTerm a := by
  obtain ⟨helected, hpre⟩ := h.prefix_book (List.ne_nil_of_mem he)
  exact hg.bounded _ helected e (hpre.subset he)

theorem Traced.lastTerm_le (hg : g.Coherent) {a b : Log} (hb : g.Traced b) (hab : a <+: b) :
    lastTerm a ≤ lastTerm b := by
  rcases lastTerm_cases a with ⟨-, h0⟩ | ⟨e, he, -, ht⟩
  · omega
  · rw [ht]
    exact hb.term_le_lastTerm hg (hab.subset (List.mem_of_getElem? he))

/-! ## Elections -/

/-- A log that ends with an entry of a later term than the decided ones holds all of them. -/
theorem Traced.decided_prefix (hg : g.Coherent) {a : Log} (h : g.Traced a)
    (hlater : lastTerm g.decided < lastTerm a) : g.decided <+: a := by
  rcases lastTerm_cases a with ⟨-, h0⟩ | ⟨e, he, hne, ht⟩
  · omega
  obtain ⟨helected, hpre⟩ := h.prefix_book hne
  have hdec := hg.complete _ helected (Nat.le_of_lt hlater)
  rcases List.prefix_or_prefix_of_prefix hdec hpre with hd | hd
  · exact hd
  · -- otherwise the last entry, of the later term, is among the decided ones
    have := hg.decided.term_le_lastTerm hg (hd.subset (List.mem_of_getElem? he))
    omega

/-- A vote that is granted by a log with the decided entries goes to a log with them. -/
theorem upToDate_decided (hg : g.Coherent) {voter candidate : Log} (hv : g.Traced voter)
    (hc : g.Traced candidate) (hd : g.decided <+: voter) (hvote : upToDate voter candidate = true) :
    g.decided <+: candidate := by
  have hle := hv.lastTerm_le hg hd
  rcases upToDate_iff.mp hvote with hlt | ⟨heq, hlen⟩
  · exact hc.decided_prefix hg (by omega)
  by_cases hne : voter = []
  · have : g.decided = [] := List.prefix_nil.mp (hne ▸ hd)
    rw [this]
    exact List.nil_prefix
  by_cases hnc : candidate = []
  · have : voter.length = 0 := by rw [hnc, List.length_nil] at hlen; omega
    exact absurd (List.length_eq_zero_iff.mp this) hne
  -- both are fronts of one book, and the candidate's is at least as long
  have hvb := (hv.prefix_book hne).2
  have hcb := (hc.prefix_book hnc).2
  rw [heq] at hvb
  exact hd.trans (List.prefix_of_prefix_length_le hvb hcb hlen)

/-! ## How a chronicle goes on -/

/-- Terms keep their leaders, and books grow. -/
structure Extends (g g' : Chronicle) : Prop where
  leader : ∀ t, g.Elected t → g'.leader t = g.leader t
  book : ∀ t, g.Elected t → g.book t <+: g'.book t
  decided : g.decided <+: g'.decided

theorem Extends.refl (g : Chronicle) : g.Extends g :=
  ⟨fun _ _ => rfl, fun _ _ => List.prefix_rfl, List.prefix_rfl⟩

theorem Extends.elected {g' : Chronicle} (h : g.Extends g') {t : Nat} (ht : g.Elected t) :
    g'.Elected t := by
  unfold Elected
  rw [h.leader t ht]
  exact ht

theorem Extends.trans {g' g'' : Chronicle} (h : g.Extends g') (h' : g'.Extends g'') :
    g.Extends g'' where
  leader t ht := (h'.leader t (h.elected ht)).trans (h.leader t ht)
  book t ht := (h.book t ht).trans (h'.book t (h.elected ht))
  decided := h.decided.trans h'.decided

theorem Traced.extends {g' : Chronicle} {a : Log} (h : g.Traced a) (hg : g.Extends g') :
    g'.Traced a := fun k e hk =>
  ⟨hg.elected (h k e hk).1, (h k e hk).2.trans (hg.book _ (h k e hk).1)⟩

/-- A replica with a certain log is elected. -/
def elect (g : Chronicle) (term i : Nat) (log : Log) : Chronicle where
  leader := Function.update g.leader term (some i)
  book := Function.update g.book term log
  decided := g.decided

/-- The leader of a term appends an entry. -/
def write (g : Chronicle) (e : Entry) : Chronicle :=
  { g with book := Function.update g.book e.term (g.book e.term ++ [e]) }

/-- The book of a term is decided. -/
def decide (g : Chronicle) (term : Nat) : Chronicle := { g with decided := g.book term }

section
variable {term i : Nat} {log : Log}

theorem elect_leader : (g.elect term i log).leader term = some i := Function.update_self ..

theorem elect_book : (g.elect term i log).book term = log := Function.update_self ..

theorem elect_leader_ne {t : Nat} (h : t ≠ term) : (g.elect term i log).leader t = g.leader t :=
  Function.update_of_ne h ..

theorem elect_book_ne {t : Nat} (h : t ≠ term) : (g.elect term i log).book t = g.book t :=
  Function.update_of_ne h ..

theorem elect_extends (hnew : ∀ t, g.Elected t → t < term) : g.Extends (g.elect term i log) where
  leader t ht := elect_leader_ne (Nat.ne_of_lt (hnew t ht))
  book t ht := prefix_of_eq (elect_book_ne (Nat.ne_of_lt (hnew t ht))).symm
  decided := List.prefix_rfl

theorem elected_elect {t : Nat} (h : (g.elect term i log).Elected t) : t = term ∨ g.Elected t := by
  by_cases ht : t = term
  · exact Or.inl ht
  · unfold Elected at h
    rw [elect_leader_ne ht] at h
    exact Or.inr h

theorem Coherent.elect (hg : g.Coherent) (hnew : ∀ t, g.Elected t → t < term)
    (hlog : g.Traced log) (hdec : g.decided <+: log) : (g.elect term i log).Coherent := by
  have hext : g.Extends (g.elect term i log) := elect_extends hnew
  have hold : ∀ t, g.Elected t → (g.elect term i log).book t = g.book t := fun t ht =>
    elect_book_ne (Nat.ne_of_lt (hnew t ht))
  refine ⟨fun t ht => ?_, fun t ht e he => ?_, hg.decided.extends hext, fun t ht hle => ?_⟩ <;>
    rcases elected_elect ht with rfl | ht
  · rw [elect_book]
    exact hlog.extends hext
  · rw [hold t ht]
    exact (hg.traced t ht).extends hext
  · rw [elect_book] at he
    obtain ⟨k, hk⟩ := List.mem_iff_getElem?.mp he
    exact Nat.le_of_lt (hnew _ (hlog k e hk).1)
  · rw [hold t ht] at he
    exact hg.bounded t ht e he
  · rw [elect_book]
    exact hdec
  · rw [hold t ht]
    exact hg.complete t ht hle

end

section
variable {e : Entry}

theorem write_book_self : (g.write e).book e.term = g.book e.term ++ [e] := Function.update_self ..

theorem write_book_ne {t : Nat} (h : t ≠ e.term) : (g.write e).book t = g.book t :=
  Function.update_of_ne h ..

theorem write_extends : g.Extends (g.write e) where
  leader _ _ := rfl
  book t _ := by
    by_cases h : t = e.term
    · rw [h, write_book_self]
      exact List.prefix_append ..
    · exact prefix_of_eq (write_book_ne h).symm
  decided := List.prefix_rfl

theorem Traced.append {a : Log} (h : g.Traced a) (he : g.Elected e.term)
    (hbook : a ++ [e] <+: g.book e.term) : g.Traced (a ++ [e]) := by
  intro k x hk
  rw [List.getElem?_append] at hk
  split at hk
  · rename_i hlt
    rw [List.take_append_of_le_length (by omega)]
    exact h k x hk
  · rw [List.getElem?_singleton] at hk
    split at hk
    · cases hk
      rw [List.take_of_length_le (by rw [List.length_append, List.length_singleton]; omega)]
      exact ⟨he, hbook⟩
    · cases hk

theorem Coherent.write (hg : g.Coherent) (he : g.Elected e.term) : (g.write e).Coherent where
  traced t ht := by
    by_cases h : t = e.term
    · subst h
      rw [write_book_self]
      exact Traced.append ((hg.traced _ he).extends write_extends) he
        (prefix_of_eq write_book_self.symm)
    · rw [write_book_ne h]
      exact (hg.traced t ht).extends write_extends
  bounded t ht x hx := by
    by_cases h : t = e.term
    · subst h
      rw [write_book_self] at hx
      rcases List.mem_append.mp hx with hx | hx
      · exact hg.bounded _ he x hx
      · exact Nat.le_of_eq (congrArg Entry.term (List.mem_singleton.mp hx))
    · rw [write_book_ne h] at hx
      exact hg.bounded t ht x hx
  decided := hg.decided.extends write_extends
  complete t ht hle := (hg.complete t ht hle).trans (write_extends.book t ht)

end

section
variable {term : Nat}

theorem decide_extends (h : g.decided <+: g.book term) : g.Extends (g.decide term) :=
  ⟨fun _ _ => rfl, fun _ _ => List.prefix_rfl, h⟩

theorem Coherent.decide (hg : g.Coherent) (ht : g.Elected term)
    (hmax : ∀ t, g.Elected t → t ≤ term) (hlast : lastTerm (g.book term) = term) :
    (g.decide term).Coherent where
  traced := hg.traced
  bounded := hg.bounded
  decided := hg.traced term ht
  complete t he hle := by
    have hterm : t = term := Nat.le_antisymm (hmax t he) (hlast ▸ hle)
    exact prefix_of_eq (congrArg g.book hterm).symm

end

/-! ## How a chronicle starts -/

/-- Nobody but the founder has led, and all that it has written is decided. -/
def first (founder : Nat) (log : Log) : Chronicle where
  leader t := if t = 1 then some founder else none
  book _ := log
  decided := log

section
variable {founder : Nat} {log : Log}

theorem first_elected {t : Nat} : (first founder log).Elected t ↔ t = 1 := by
  by_cases h : t = 1 <;> simp [Elected, first, h]

theorem first_traced (hlog : ∀ e ∈ log, e.term = 1) : (first founder log).Traced log :=
  fun _ e he => ⟨first_elected.mpr (hlog e (List.mem_of_getElem? he)), List.take_prefix ..⟩

theorem first_coherent (hlog : ∀ e ∈ log, e.term = 1) : (first founder log).Coherent where
  traced _ _ := first_traced hlog
  bounded _ ht e he := Nat.le_of_eq ((hlog e he).trans (first_elected.mp ht).symm)
  decided := first_traced hlog
  complete _ _ _ := List.prefix_rfl

end

end Chronicle

end ReplicatedTable.Raft
