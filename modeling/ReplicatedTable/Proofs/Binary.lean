import ReplicatedTable.Binary

/-!
# Readers that undo writers

A reader restores what a writer has written if it finds it again in front of any rest and never comes up with
anything else than what fits the format (`Restores`). It is exact if it accepts nothing but what was written
(`Exact`). Numbers and texts are read exactly. A map is restored, but it is also read from pairs in another
order and from pairs with equal keys.
-/
namespace ReplicatedTable.Binary

open Text Std

variable {ε α β : Type} {read : Reader α} {write : α → List UInt8} {Fits : α → Prop} {a b : α}
  {bs rest : List UInt8}

theorem bind_eq_ok_iff {x : Except ε α} {f : α → Except ε β} {b : β} :
    (x >>= f) = .ok b ↔ ∃ a, x = .ok a ∧ f a = .ok b := by
  cases x with
  | error _ => simp [bind, Except.bind]
  | ok a => simp [bind, Except.bind]

structure Restores (read : Reader α) (write : α → List UInt8) (Fits : α → Prop) : Prop where
  read_write {a : α} : Fits a → ∀ rest, read (write a ++ rest) = .ok (a, rest)
  fits {a : α} {bs rest : List UInt8} : read bs = .ok (a, rest) → Fits a

structure Exact (read : Reader α) (write : α → List UInt8) (Fits : α → Prop) : Prop extends
    Restores read write Fits where
  only {a : α} {bs rest : List UInt8} : read bs = .ok (a, rest) → bs = write a ++ rest

theorem Exact.read_eq_ok_iff (h : Exact read write Fits) :
    read bs = .ok (a, rest) ↔ Fits a ∧ bs = write a ++ rest :=
  ⟨fun hr => ⟨h.fits hr, h.only hr⟩, fun ⟨ha, hbs⟩ => hbs ▸ h.read_write ha rest⟩

/-- No writing is the beginning of another. -/
theorem Restores.eq_of_prefix (h : Restores read write Fits) (ha : Fits a) (hb : Fits b)
    (hp : write a <+: write b) : a = b := by
  obtain ⟨rest, hrest⟩ := hp
  have hread : read (write b ++ []) = .ok (a, rest) := by
    rw [List.append_nil, ← hrest]
    exact h.read_write ha rest
  rw [h.read_write hb] at hread
  cases hread
  rfl

/-! ## Numbers and texts -/

theorem value_lt (bs : List UInt8) : value bs < room bs.length := by
  induction bs with
  | nil => exact Nat.one_pos
  | cons byte bs ih =>
    have hbyte := byte.toNat_lt
    rw [value, List.length_cons, room]
    omega

theorem number_exact (width : Nat) : Exact (readNumber width) (number width) (· < room width) where
  read_write := readNumber_number
  only := eq_append_of_readNumber
  fits {n bs rest} h := by
    simp only [readNumber] at h
    split at h
    · cases h
    · rename_i hl
      cases h
      have hlength : (bs.take width).length = width := by simp at hl ⊢; omega
      have hlt := value_lt (bs.take width)
      rwa [hlength] at hlt

/-- Lengths, counts and indices are numbers of eight bytes. -/
theorem length_exact : Exact (readNumber 8) (number 8) (· < UInt64.size) := room_eight ▸ number_exact 8

/-- The length of a text can be written down in eight bytes. -/
def Brief (s : String) : Prop := (utf8 s).length < UInt64.size

theorem text_exact : Exact readText text Brief where
  read_write := readText_text
  only := eq_append_of_readText
  fits {s bs rest} h := by
    obtain ⟨⟨n, bs'⟩, hn, h⟩ := bind_eq_ok_iff.mp h
    have hlt := length_exact.fits hn
    dsimp only at h
    split at h
    · cases h
    · split at h
      · rename_i hu
        cases h
        have hlength : (bs'.take n).length ≤ n := List.length_take_le ..
        rw [readUtf8_eq_ok_iff.mp hu] at hlength
        exact Nat.lt_of_le_of_lt hlength hlt
      · cases h

/-! ## Maps -/

/-- A map of fewer than so many pairs, each of which can be written down. -/
structure Bounded (bound : Nat) (Fits : α → Prop) (m : ExtTreeMap String α) : Prop where
  size : m.size < bound
  entry {k : String} {v : α} : m[k]? = some v → Brief k ∧ Fits v

variable {bound : Nat} {m : ExtTreeMap String α} {k : String} {v : α}

theorem bounded_empty (h : 0 < bound) : Bounded bound Fits (∅ : ExtTreeMap String α) where
  size := by simpa using h
  entry h := by simp at h

theorem Bounded.mono {more : Nat} {Fits' : α → Prop} (h : Bounded bound Fits m) (hle : bound ≤ more)
    (himp : ∀ v, Fits v → Fits' v) : Bounded more Fits' m where
  size := Nat.lt_of_lt_of_le h.size hle
  entry hv := (h.entry hv).imp_right (himp _)

theorem Bounded.insert (h : Bounded bound Fits m) (hk : Brief k) (hv : Fits v) :
    Bounded (bound + 1) Fits (m.insert k v) where
  size := Nat.lt_of_le_of_lt ExtTreeMap.size_insert_le (Nat.succ_lt_succ h.size)
  entry {k' v'} hentry := by
    rw [ExtTreeMap.getElem?_insert] at hentry
    split at hentry
    · rename_i e
      cases hentry
      exact LawfulEqCmp.eq_of_compare e ▸ ⟨hk, hv⟩
    · exact h.entry hentry

/-- The same for a value that fits what all values are by then known to fit. -/
theorem Bounded.replace {Fits' : α → Prop} (h : Bounded bound Fits m) (himp : ∀ v, Fits v → Fits' v)
    (hk : Brief k) (hv : Fits' v) : Bounded (bound + 1) Fits' (m.insert k v) :=
  (h.mono (Nat.le_refl bound) himp).insert hk hv

/-- A map of maps yields a bounded map under every key. -/
theorem Bounded.getD {m : ExtTreeMap String (ExtTreeMap String α)} {inner : Nat}
    (h : Bounded bound (Bounded inner Fits) m) (hinner : 0 < inner) (k : String) :
    Bounded inner Fits ((m[k]?).getD ∅) := by
  cases hk : m[k]? with
  | none => exact bounded_empty hinner
  | some v => exact (h.entry hk).2

/-- The pairs of a map make the map. -/
theorem foldl_insert_toList (m : ExtTreeMap String α) :
    m.toList.foldl (fun m p => m.insert p.1 p.2) ∅ = m := by
  rw [← ExtTreeMap.insertMany_list_eq_foldl]
  refine ExtTreeMap.ext_getElem? fun k => ?_
  cases hk : m[k]? with
  | some v =>
    exact ExtTreeMap.getElem?_insertMany_list_of_mem ReflCmp.compare_self
      ExtTreeMap.distinct_keys_toList (ExtTreeMap.mem_toList_iff_getElem?_eq_some.mpr hk)
  | none =>
    rw [ExtTreeMap.getElem?_insertMany_list_of_contains_eq_false, ExtTreeMap.getElem?_empty]
    rw [ExtTreeMap.map_fst_toList_eq_keys, ExtTreeMap.contains_keys, ← Bool.not_eq_true,
      ExtTreeMap.contains_iff_mem, ExtTreeMap.mem_iff_isSome_getElem?, hk]
    exact Bool.false_ne_true

theorem readPairs_flatMap {readValue : Reader α} (h : Restores readValue write Fits)
    {pairs : List (String × α)} (hpairs : ∀ p ∈ pairs, Brief p.1 ∧ Fits p.2) (m : ExtTreeMap String α)
    (rest : List UInt8) :
    readPairs readValue pairs.length m ((pairs.flatMap fun p => text p.1 ++ write p.2) ++ rest) =
      .ok (pairs.foldl (fun m p => m.insert p.1 p.2) m, rest) := by
  induction pairs generalizing m with
  | nil => rfl
  | cons p pairs ih =>
    obtain ⟨hk, hv⟩ := hpairs p (List.mem_cons_self ..)
    rw [List.flatMap_cons, List.append_assoc, List.append_assoc, List.length_cons, readPairs,
      text_exact.read_write hk]
    dsimp only
    rw [h.read_write hv]
    exact ih (fun q hq => hpairs q (List.mem_cons_of_mem _ hq)) _

theorem Bounded.readPairs {readValue : Reader α} (h : Restores readValue write Fits) {count : Nat}
    {m' : ExtTreeMap String α} (hm : Bounded bound Fits m)
    (hr : readPairs readValue count m bs = .ok (m', rest)) : Bounded (bound + count) Fits m' := by
  induction count generalizing bound m bs with
  | zero => cases hr; exact hm
  | succ count ih =>
    unfold Binary.readPairs at hr
    split at hr
    · cases hr
    · rename_i hk
      split at hr
      · cases hr
      · rename_i hv
        have hfits := ih (hm.insert (text_exact.fits hk) (h.fits hv)) hr
        rwa [Nat.add_right_comm] at hfits

theorem map_restores {value : α → List UInt8} {readValue : Reader α}
    (h : Restores readValue value Fits) :
    Restores (readMap readValue) (map value) (Bounded UInt64.size Fits) where
  read_write {m} hm rest := by
    have hpairs : ∀ p ∈ m.toList, Brief p.1 ∧ Fits p.2 := fun p hp =>
      hm.entry (ExtTreeMap.mem_toList_iff_getElem?_eq_some.mp hp)
    rw [readMap, map, List.append_assoc, length_exact.read_write hm.size]
    show readPairs readValue m.size ∅ _ = _
    rw [← ExtTreeMap.length_toList, readPairs_flatMap h hpairs, foldl_insert_toList]
  fits {m bs rest} hr := by
    obtain ⟨⟨count, bs'⟩, hcount, hr⟩ := bind_eq_ok_iff.mp hr
    have hlt := length_exact.fits hcount
    exact (Bounded.readPairs h (bounded_empty Nat.one_pos) hr).mono (by omega) fun _ => id

end ReplicatedTable.Binary
