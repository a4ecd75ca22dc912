import ReplicatedTable.Text.Percent
import ReplicatedTable.Text.Parts

/-!
# Percent encoding, read back

What is kept as it stands must be ASCII and no percent sign (`Plain`). Then decoding gives back the bytes that
were encoded (`percentDecode_percentEncode`). Texts are looked at as bytes where they go over the wire, and as
characters where they are split: `utf8_ofList` and `mem_utf8` lead from one to the other.
-/
namespace ReplicatedTable.Text

/-! ## Characters and bytes -/

/-- The bytes of ASCII characters. -/
def ascii (cs : List Char) : List UInt8 := cs.map fun c => UInt8.ofNat c.toNat

@[simp] theorem ascii_append (a b : List Char) : ascii (a ++ b) = ascii a ++ ascii b := List.map_append

theorem utf8_eq (s : String) : utf8 s = s.toList.flatMap String.utf8EncodeChar := by
  have h : utf8 (String.ofList s.toList) = s.toList.flatMap String.utf8EncodeChar := by
    rw [utf8, String.toByteArray_ofList, List.utf8Encode]
    simp
  rwa [String.ofList_toList] at h

theorem utf8_ofList {cs : List Char} (h : ∀ c ∈ cs, c.toNat < 0x80) :
    utf8 (String.ofList cs) = ascii cs := by
  rw [utf8_eq, String.toList_ofList]
  induction cs with
  | nil => rfl
  | cons c cs ih =>
    have hc : String.utf8EncodeChar c = [UInt8.ofNat c.toNat] :=
      if_pos (Nat.le_of_lt_succ (h c (List.mem_cons_self ..)))
    rw [List.flatMap_cons, hc, ih fun x hx => h x (List.mem_cons_of_mem _ hx)]
    rfl

/-- A byte of an ASCII character stands for this character only. -/
theorem mem_utf8EncodeChar {b : UInt8} (hb : b < 0x80) {c : Char} :
    b ∈ String.utf8EncodeChar c ↔ c.toNat = b.toNat := by
  have hb : b.toNat < 128 := UInt8.lt_iff_toNat_lt.mp hb
  have hcont : ∀ n k, 128 ≤ k → k + n ≤ 255 → b ≠ UInt8.ofNat (n + k) := fun n k hk hn h => by
    rw [h, UInt8.toNat_ofNat'] at hb
    omega
  unfold String.utf8EncodeChar
  show b ∈ (if c.toNat ≤ 127 then _ else _) ↔ _
  split
  · rename_i hc
    rw [List.mem_singleton]
    constructor
    · rintro rfl
      rw [UInt8.toNat_ofNat', Nat.mod_eq_of_lt]
      · rfl
      · exact Nat.lt_of_le_of_lt hc (by decide)
    · intro h
      exact UInt8.toNat_inj.mp (by rw [UInt8.toNat_ofNat']; show _ = c.toNat % _; omega)
  · have hne : c.toNat ≠ b.toNat := by omega
    refine iff_of_false ?_ hne
    split
    · simp only [List.mem_cons, List.not_mem_nil, or_false, not_or]
      exact ⟨hcont _ _ (by omega) (by omega), hcont _ _ (by omega) (by omega)⟩
    · split
      · simp only [List.mem_cons, List.not_mem_nil, or_false, not_or]
        exact ⟨hcont _ _ (by omega) (by omega), hcont _ _ (by omega) (by omega),
          hcont _ _ (by omega) (by omega)⟩
      · simp only [List.mem_cons, List.not_mem_nil, or_false, not_or]
        exact ⟨hcont _ _ (by omega) (by omega), hcont _ _ (by omega) (by omega),
          hcont _ _ (by omega) (by omega), hcont _ _ (by omega) (by omega)⟩

/-- An ASCII character stands in a text if its byte does. -/
theorem mem_utf8 {c : Char} (hc : c.toNat < 0x80) {s : String} :
    UInt8.ofNat c.toNat ∈ utf8 s ↔ c ∈ s.toList := by
  have hb : UInt8.ofNat c.toNat < 0x80 := by
    rw [UInt8.lt_iff_toNat_lt, UInt8.toNat_ofNat']
    show c.toNat % 256 < 128
    omega
  have hbyte : (UInt8.ofNat c.toNat).toNat = c.toNat := by
    rw [UInt8.toNat_ofNat']
    omega
  rw [utf8_eq, List.mem_flatMap]
  constructor
  · rintro ⟨d, hd, hmem⟩
    rw [mem_utf8EncodeChar hb, hbyte] at hmem
    rwa [← Char.toNat_inj.mp hmem]
  · exact fun h => ⟨c, h, (mem_utf8EncodeChar hb).mpr hbyte.symm⟩

/-! ## Encoding -/

/-- What is kept as it stands is ASCII and no percent sign. -/
def Plain (keep : UInt8 → Bool) : Prop := ∀ b, keep b = true → b < 0x80 ∧ b ≠ 0x25

theorem toNat_ofNat_of_ascii : ∀ n < 0x80, (Char.ofNat n).toNat = n := by decide

theorem hexDigit_ascii : ∀ n < 16, (hexDigit n).toNat < 0x80 := by decide

theorem hexValue?_hexDigit : ∀ n < 16,
    hexValue? (UInt8.ofNat (hexDigit n).toNat) = some (UInt8.ofNat n) := by decide

theorem percentDecode_cons_of_ne {b : UInt8} (hb : b ≠ 0x25) (rest : List UInt8) :
    percentDecode (b :: rest) = b :: percentDecode rest := by
  rw [percentDecode]
  simp [hb]

variable {keep : UInt8 → Bool}

theorem ascii_percentByte (hkeep : Plain keep) (b : UInt8) : ∀ c ∈ percentByte keep b, c.toNat < 0x80 := by
  unfold percentByte
  split
  · rename_i hb
    have hlt := UInt8.lt_iff_toNat_lt.mp (hkeep b hb).1
    simp only [List.mem_singleton, forall_eq]
    rwa [toNat_ofNat_of_ascii _ hlt]
  · simp only [List.mem_cons, List.not_mem_nil, or_false, forall_eq_or_imp, forall_eq]
    have := b.toNat_lt
    exact ⟨by decide, hexDigit_ascii _ (by omega), hexDigit_ascii _ (by omega)⟩

theorem ascii_percentEncode (hkeep : Plain keep) (bs : List UInt8) :
    ∀ c ∈ percentEncode keep bs, c.toNat < 0x80 := fun c hc => by
  obtain ⟨b, -, hc⟩ := List.mem_flatMap.mp hc
  exact ascii_percentByte hkeep b c hc

theorem percentDecode_percentByte (hkeep : Plain keep) (b : UInt8) (rest : List UInt8) :
    percentDecode (ascii (percentByte keep b) ++ rest) = b :: percentDecode rest := by
  unfold percentByte
  split
  · rename_i hb
    obtain ⟨hlt, hne⟩ := hkeep b hb
    have hlt := UInt8.lt_iff_toNat_lt.mp hlt
    have hchar : UInt8.ofNat (Char.ofNat b.toNat).toNat = b := by
      rw [toNat_ofNat_of_ascii _ hlt, UInt8.ofNat_toNat]
    show percentDecode (UInt8.ofNat (Char.ofNat b.toNat).toNat :: rest) = _
    rw [hchar, percentDecode_cons_of_ne hne]
  · have hlt := b.toNat_lt
    show percentDecode (0x25 :: UInt8.ofNat (hexDigit (b.toNat / 16)).toNat ::
      UInt8.ofNat (hexDigit (b.toNat % 16)).toNat :: rest) = _
    rw [percentDecode]
    · simp only [hexValue?_hexDigit _ (show b.toNat / 16 < 16 by omega),
        hexValue?_hexDigit _ (show b.toNat % 16 < 16 by omega)]
      congr 1
      apply UInt8.toNat_inj.mp
      simp only [UInt8.toNat_add, UInt8.toNat_mul, UInt8.toNat_ofNat']
      show (b.toNat / 16 % 256 * 16 % 256 + b.toNat % 16 % 256) % 256 = b.toNat
      omega
    · rfl

/-- What was encoded is read back. -/
theorem percentDecode_percentEncode (hkeep : Plain keep) (bs : List UInt8) :
    percentDecode (ascii (percentEncode keep bs)) = bs := by
  induction bs with
  | nil => rfl
  | cons b bs ih =>
    rw [percentEncode, List.flatMap_cons, ← percentEncode, ascii_append, percentDecode_percentByte hkeep, ih]

/-! ## Splitting -/

variable {p : Char → Bool}

/-- A text that begins with no separator continues the first part of what follows. -/
theorem split_append_of_none {a b s : List Char} {ss : List (List Char)} (ha : ∀ c ∈ a, p c = false)
    (hb : split p b = s :: ss) : split p (a ++ b) = (a ++ s) :: ss := by
  induction a with
  | nil => exact hb
  | cons c a ih =>
    rw [List.cons_append, split, if_neg (by simp [ha c (List.mem_cons_self ..)]),
      ih fun x hx => ha x (List.mem_cons_of_mem _ hx)]
    rfl

/-- A text without separators is one part. -/
theorem split_of_none {a : List Char} (ha : ∀ c ∈ a, p c = false) : split p a = [a] := by
  have h := split_append_of_none ha (show split p [] = [[]] from rfl)
  rwa [List.append_nil] at h

theorem split_append_cons {c : Char} (hc : p c = true) (a b : List Char) :
    split p (a ++ c :: b) = split p a ++ split p b := by
  induction a with
  | nil =>
    show split p (c :: b) = [] :: split p b
    rw [split, if_pos hc]
  | cons d a ih =>
    rw [List.cons_append, split, split]
    split
    · rw [ih]; rfl
    · rw [ih]
      obtain ⟨s, ss, h⟩ := List.exists_cons_of_ne_nil (split_ne_nil p a)
      rw [h]
      rfl

/-- The parts of texts with a separator before each. -/
theorem split_flatMap {c : Char} (hc : p c = true) (parts : List (List Char)) :
    split p (parts.flatMap (c :: ·)) = [] :: parts.flatMap (split p) := by
  have hbehind : ∀ a, split p (a ++ parts.flatMap (c :: ·)) = split p a ++ parts.flatMap (split p) := by
    induction parts with
    | nil => simp
    | cons x parts ih =>
      intro a
      rw [List.flatMap_cons, List.flatMap_cons, List.cons_append, split_append_cons hc, ih x]
  exact hbehind []

end ReplicatedTable.Text
