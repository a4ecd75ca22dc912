import ReplicatedTable.Proofs.Binary
import ReplicatedTable.Table.Entry

/-!
# Entries as bytes

The body of an entry is read exactly (`body_exact`). So an entry is decoded from the bytes that begin with its
encoding and from no others, which settles what bytes hold an entry at all.
-/
namespace ReplicatedTable.Table
open Text Binary

/-- The lengths of an entry's texts can be written down in eight bytes. -/
structure Entry.Sized (e : Entry) : Prop where
  table : (utf8 e.table).length < UInt64.size
  row : (utf8 e.row).length < UInt64.size
  column : (utf8 e.column).length < UInt64.size
  value : (utf8 e.value).length < UInt64.size

instance (e : Entry) : Decidable e.Sized :=
  decidable_of_iff ((utf8 e.table).length < UInt64.size ∧ (utf8 e.row).length < UInt64.size ∧
      (utf8 e.column).length < UInt64.size ∧ (utf8 e.value).length < UInt64.size)
    ⟨fun ⟨ht, hr, hc, hv⟩ => ⟨ht, hr, hc, hv⟩, fun h => ⟨h.table, h.row, h.column, h.value⟩⟩

namespace Entry

theorem readBody_eq_ok_iff {e : Entry} {bs rest : List UInt8} :
    readBody bs = .ok (e, rest) ↔ e.Sized ∧ bs = e.body ++ rest := by
  simp only [readBody, bind_eq_ok_iff, Prod.exists, (number_exact 4).read_eq_ok_iff]
  constructor
  · rintro ⟨operation, _, ⟨-, rfl⟩, h⟩
    split at h
    · cases h
    · rename_i hset
      simp only [bind_eq_ok_iff, Prod.exists, text_exact.read_eq_ok_iff] at h
      obtain ⟨table, _, ⟨htable, rfl⟩, row, _, ⟨hrow, rfl⟩, column, _, ⟨hcolumn, rfl⟩, value, _,
        ⟨hvalue, rfl⟩, h⟩ := h
      cases h
      obtain rfl := Decidable.not_not.mp hset
      exact ⟨⟨htable, hrow, hcolumn, hvalue⟩, by simp only [body, List.append_assoc]⟩
  · rintro ⟨h, rfl⟩
    refine ⟨0, _, ⟨by decide, by simp only [body, List.append_assoc]; rfl⟩, ?_⟩
    rw [if_neg (by simp)]
    simp only [bind_eq_ok_iff, Prod.exists, text_exact.read_eq_ok_iff]
    exact ⟨_, _, ⟨h.table, rfl⟩, _, _, ⟨h.row, rfl⟩, _, _, ⟨h.column, rfl⟩, _, _, ⟨h.value, rfl⟩, rfl⟩

theorem body_exact : Exact readBody body Sized where
  read_write h _ := readBody_eq_ok_iff.mpr ⟨h, rfl⟩
  fits h := (readBody_eq_ok_iff.mp h).1
  only h := (readBody_eq_ok_iff.mp h).2

theorem decode_eq_ok_iff {e : Entry} {bs : List UInt8} :
    decode bs = .ok e ↔ e.Sized ∧ e.encode <+: bs := by
  cases bs with
  | nil => simp [decode, encode]
  | cons v bs =>
    rw [decode, encode, List.cons_prefix_cons]
    constructor
    · intro h
      split at h
      · rename_i hv
        cases hr : readBody bs with
        | error _ => rw [hr] at h; cases h
        | ok p =>
          rw [hr] at h
          cases h
          obtain ⟨hsized, rfl⟩ := readBody_eq_ok_iff.mp hr
          exact ⟨hsized, hv.symm, List.prefix_append ..⟩
      · cases h
    · rintro ⟨hsized, rfl, rest, rfl⟩
      rw [if_pos rfl, body_exact.read_write hsized]
      rfl

theorem decode_encode {e : Entry} (h : e.Sized) : decode e.encode = .ok e :=
  decode_eq_ok_iff.mpr ⟨h, List.prefix_rfl⟩

/-- Bytes hold an entry just if they begin with its encoding. Hence an entry is read back from its encoding,
no encoding begins another, and bytes that begin with none are refused. -/
theorem decoding_exact :
    (∀ bs e, decode bs = .ok e ↔ e.Sized ∧ e.encode <+: bs) ∧
    (∀ e : Entry, e.Sized → decode e.encode = .ok e) ∧
    (∀ e e' : Entry, e.Sized → e'.Sized → e.encode <+: e'.encode → e = e') ∧
    ∀ bs, (∀ e : Entry, e.Sized → ¬ e.encode <+: bs) → ∃ fault, decode bs = .error fault := by
  refine ⟨fun _ _ => decode_eq_ok_iff, fun _ => decode_encode, fun e e' h h' hp => ?_, fun bs hbs => ?_⟩
  · exact body_exact.eq_of_prefix h h' (List.cons_prefix_cons.mp hp).2
  · cases hd : decode bs with
    | error fault => exact ⟨fault, rfl⟩
    | ok e =>
      obtain ⟨hsized, hp⟩ := decode_eq_ok_iff.mp hd
      exact absurd hp (hbs e hsized)

/-- Two cells whose values begin alike: the length that is written before the value tells them apart. -/
theorem decoding_exact_of_like_cells :
    let e : Entry := ⟨"t", "r", "c", "v"⟩
    let e' : Entry := ⟨"t", "r", "c", "vw"⟩
    decode (e.encode ++ [0]) = .ok e ∧ decode e'.encode = .ok e' ∧ ¬ e.encode <+: e'.encode ∧
      ∃ fault, decode [2] = .error fault := by
  intro e e'
  have h : e.Sized := by constructor <;> decide +kernel
  have h' : e'.Sized := by constructor <;> decide +kernel
  obtain ⟨hiff, hdecode, hapart, hrefused⟩ := decoding_exact
  refine ⟨(hiff _ e).mpr ⟨h, List.prefix_append ..⟩, hdecode e' h', fun hp => ?_,
    hrefused [2] fun _ _ hp => ?_⟩
  · exact absurd (hapart e e' h h' hp) (by decide)
  · exact absurd (List.cons_prefix_cons.mp hp).1 (by decide)

end Entry

end ReplicatedTable.Table
