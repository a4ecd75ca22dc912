import ReplicatedTable.Proofs.Http.Addressing

/-!
# Paths tell their keys

A path is split at its slashes into nothing, `key` and one segment for each name (`splitAt_keyPath`), and what
is in a segment decodes to its name (`percentDecode_encodeSegment`). So the names can be read off a path, with
or without a column, and different keys have different paths. Whatever is in the names, a path holds printable
ASCII only, and no mark that would end it (`printable_of_mem_keyPath`).
-/
namespace ReplicatedTable

open Text

/-! ## Segments -/

theorem percentDecode_encodeSegment (name : String) :
    percentDecode (utf8 (encodeSegment name)) = utf8 name := by
  rw [encodeSegment, utf8_ofList (ascii_percentEncode plain_keepInSegment _),
    percentDecode_percentEncode plain_keepInSegment]

theorem encodeSegment_injective : Function.Injective encodeSegment := by
  intro name name' h
  have hbytes := congrArg (percentDecode ∘ utf8) h
  simp only [Function.comp_apply, percentDecode_encodeSegment] at hbytes
  exact utf8_injective hbytes

theorem keepInSegment_hexDigit : ∀ n < 16, keepInSegment (UInt8.ofNat (hexDigit n).toNat) = true := by
  decide

/-- What stands in a segment is the sign of an escape, or is kept as it is. -/
theorem keepInSegment_of_mem_segment {bs : List UInt8} {c : Char} (h : c ∈ segment bs) :
    c = '%' ∨ keepInSegment (UInt8.ofNat c.toNat) = true := by
  obtain ⟨b, -, hc⟩ := List.mem_flatMap.mp h
  unfold percentByte at hc
  split at hc
  · rename_i hb
    obtain rfl := List.mem_singleton.mp hc
    have hlt := UInt8.lt_iff_toNat_lt.mp (plain_keepInSegment b hb).1
    rw [toNat_ofNat_of_ascii _ hlt, UInt8.ofNat_toNat]
    exact .inr hb
  · have hb := b.toNat_lt
    simp only [List.mem_cons, List.not_mem_nil, or_false] at hc
    rcases hc with rfl | rfl | rfl
    · exact .inl rfl
    · exact .inr (keepInSegment_hexDigit _ (by omega))
    · exact .inr (keepInSegment_hexDigit _ (by omega))

/-- A printable ASCII character that is no blank and ends no path. -/
def Printable (c : Char) : Prop :=
  0x20 < c.toNat ∧ c.toNat < 0x7F ∧ c ≠ '?' ∧ c ≠ '#' ∧ c ≠ '&'

instance (c : Char) : Decidable (Printable c) :=
  inferInstanceAs (Decidable (_ ∧ _))

theorem printable_of_mem_segment {bs : List UInt8} {c : Char} (h : c ∈ segment bs) : Printable c := by
  rcases keepInSegment_of_mem_segment h with rfl | hkeep
  · decide
  · have hascii := ascii_percentEncode plain_keepInSegment bs c h
    have hbyte : (UInt8.ofNat c.toNat).toNat = c.toNat := by
      rw [UInt8.toNat_ofNat']
      omega
    simp only [keepInSegment, Bool.and_eq_true, decide_eq_true_eq, Bool.not_eq_true', Bool.or_eq_false_iff,
      beq_eq_false_iff_ne, UInt8.lt_iff_toNat_lt, hbyte] at hkeep
    obtain ⟨⟨hlow, hhigh⟩, ⟨⟨-, hquery⟩, hnumber⟩, hand⟩ := hkeep
    have hne : ∀ d : Char, UInt8.ofNat c.toNat ≠ UInt8.ofNat d.toNat → c ≠ d := by
      rintro d hd rfl
      exact hd rfl
    exact ⟨hlow, hhigh, hne '?' hquery, hne '#' hnumber, hne '&' hand⟩

/-! ## Paths -/

theorem printable_of_mem_keyPath {table row : String} {column : Option String} {c : Char}
    (h : c ∈ (keyPath table row column).toList) : Printable c := by
  rw [CommandLine.Client.toList_keyPath] at h
  obtain ⟨name, -, hc⟩ := List.mem_flatMap.mp h
  rcases List.mem_cons.mp hc with rfl | hc
  · decide
  · exact printable_of_mem_segment hc

theorem splitAt_keyPath (table row : String) (column : Option String) :
    splitAt '/' (keyPath table row column) =
      "" :: "key" :: (table :: row :: column.toList).map encodeSegment := by
  have hwhole : ∀ name : String, split (· == '/') (segment (utf8 name)) = [segment (utf8 name)] :=
    fun name => split_of_none fun c hc => beq_eq_false_iff_ne.mpr (mark_of_mem_segment hc).1
  have hsplit := split_flatMap (p := (· == '/')) (c := '/') rfl
    (("key" :: table :: row :: column.toList).map fun name => segment (utf8 name))
  rw [List.flatMap_map, List.flatMap_map] at hsplit
  simp only [hwhole, ← List.map_eq_flatMap] at hsplit
  have hkey : String.ofList (segment (utf8 "key")) = "key" := rfl
  rw [splitAt, CommandLine.Client.toList_keyPath, pathThrough, hsplit, List.map_cons, List.map_map,
    List.map_cons, Function.comp_apply, hkey]
  rfl

/-- A path is split into nothing, `key` and one segment for each name, and each segment decodes to the bytes of
its name. All characters in a path are printable ASCII and end no path. So no two keys have the same path,
whether they have a column or not. -/
theorem keyPath_unambiguous :
    (∀ table row column, ∃ segments,
      splitAt '/' (keyPath table row column) = "" :: "key" :: segments ∧
      segments.map (fun s => percentDecode (utf8 s)) = (table :: row :: column.toList).map utf8) ∧
    (∀ table row column, ∀ c ∈ (keyPath table row column).toList,
      0x20 < c.toNat ∧ c.toNat < 0x7F ∧ c ≠ '?' ∧ c ≠ '#' ∧ c ≠ '&') ∧
    ∀ table row column table' row' column', keyPath table row column = keyPath table' row' column' →
      table = table' ∧ row = row' ∧ column = column' := by
  refine ⟨fun table row column => ⟨_, splitAt_keyPath table row column, ?_⟩,
    fun _ _ _ _ => printable_of_mem_keyPath, fun table row column table' row' column' h => ?_⟩
  · rw [List.map_map]
    exact List.map_congr_left fun name _ => percentDecode_encodeSegment name
  · have hsplit := congrArg (splitAt '/') h
    rw [splitAt_keyPath, splitAt_keyPath] at hsplit
    have hnames := List.map_injective_iff.mpr encodeSegment_injective
      (List.cons.inj (List.cons.inj hsplit).2).2
    obtain ⟨htable, hrest⟩ := List.cons.inj hnames
    obtain ⟨hrow, hcolumn⟩ := List.cons.inj hrest
    exact ⟨htable, hrow, by simpa using congrArg List.head? hcolumn⟩

/-- Names that look like escapes and paths. -/
theorem keyPath_unambiguous_of_escapes :
    (∃ segments, splitAt '/' (keyPath "%2F" "a/b" (some "é &")) = "" :: "key" :: segments ∧
      segments.map (fun s => percentDecode (utf8 s)) = ["%2F", "a/b", "é &"].map utf8) ∧
    keyPath "t" "a" (some "b") ≠ keyPath "t" "a/b" none := by
  obtain ⟨hsplit, -, hapart⟩ := keyPath_unambiguous
  refine ⟨hsplit "%2F" "a/b" (some "é &"), fun h => ?_⟩
  exact absurd (hapart _ _ _ _ _ _ h).2.1 (by decide)

end ReplicatedTable
