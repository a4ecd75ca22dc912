import Mathlib.Data.List.Basic
import Mathlib.Data.List.TakeWhile
import ReplicatedTable.Cluster.Operation
import ReplicatedTable.CommandLine.Client
import ReplicatedTable.Proofs.Text.Percent

/-!
# Which names reach the cell that they name

A client writes the names of a cell into the path of an address, and the address is resolved before it is
sent. A name comes through unless it holds a backslash, which splits a segment though it is not escaped, or is
one of the two names that stand for a place (`Addressable`). For such names every command reaches the cell or
the row that it names, and for no others (`commands_reach_named`).

Names come through because what is encoded holds no other separators, and because the spellings of places
decode to dots (`isHere_encoded`, `isAbove_encoded`). Others do not, as whatever is left of a path once it is
resolved decodes to a name that is addressable (`Kept`).
-/
namespace ReplicatedTable

open Text Http

/-- A name that clients take for one segment of a path, and for no place. -/
structure Addressable (name : String) : Prop where
  unsplit : '\\' ∉ name.toList
  notHere : name ≠ "."
  notAbove : name ≠ ".."

instance (name : String) : Decidable (Addressable name) :=
  decidable_of_iff ('\\' ∉ name.toList ∧ name ≠ "." ∧ name ≠ "..")
    ⟨fun ⟨h, h', h''⟩ => ⟨h, h', h''⟩, fun h => ⟨h.unsplit, h.notHere, h.notAbove⟩⟩

/-! ## Segments -/

/-- The characters of a segment that holds these bytes. -/
def segment (bs : List UInt8) : List Char := percentEncode keepInSegment bs

theorem plain_keepInSegment : Plain keepInSegment := by
  intro b h
  simp only [keepInSegment, Bool.and_eq_true, decide_eq_true_eq, Bool.not_eq_true', Bool.or_eq_false_iff,
    beq_eq_false_iff_ne] at h
  exact ⟨UInt8.lt_trans h.1.2 (by decide), h.2.1.1.1.2⟩

theorem hexDigit_unmarked : ∀ n < 16,
    hexDigit n ≠ '/' ∧ hexDigit n ≠ '?' ∧ hexDigit n ≠ '#' ∧ hexDigit n ≠ '\\' := by decide

/-- Of the marks that split an address only the backslash can come out, from a backslash. -/
theorem mark_of_mem_percentByte {b : UInt8} {c : Char} (h : c ∈ percentByte keepInSegment b) :
    c ≠ '/' ∧ c ≠ '?' ∧ c ≠ '#' ∧ (c = '\\' → b = 0x5C) := by
  unfold percentByte at h
  split at h
  · rename_i hb
    obtain rfl := List.mem_singleton.mp h
    have hbyte : ∀ m : UInt8, m < 0x80 → Char.ofNat b.toNat = Char.ofNat m.toNat → b = m := by
      intro m hm he
      have hlt := UInt8.lt_iff_toNat_lt.mp (plain_keepInSegment b hb).1
      have hnat := congrArg Char.toNat he
      rw [toNat_ofNat_of_ascii _ hlt, toNat_ofNat_of_ascii _ (UInt8.lt_iff_toNat_lt.mp hm)] at hnat
      exact UInt8.toNat_inj.mp hnat
    have hkept : ∀ m : UInt8, m < 0x80 → keepInSegment m = false →
        Char.ofNat b.toNat ≠ Char.ofNat m.toNat := by
      intro m hm hkeep he
      rw [hbyte m hm he, hkeep] at hb
      cases hb
    exact ⟨hkept 0x2F (by decide) rfl, hkept 0x3F (by decide) rfl, hkept 0x23 (by decide) rfl,
      hbyte 0x5C (by decide)⟩
  · have hb := b.toNat_lt
    have hhigh := hexDigit_unmarked (b.toNat / 16) (by omega)
    have hlow := hexDigit_unmarked (b.toNat % 16) (by omega)
    simp only [List.mem_cons, List.not_mem_nil, or_false] at h
    rcases h with rfl | rfl | rfl
    · exact ⟨by decide, by decide, by decide, fun he => absurd he (by decide)⟩
    · exact ⟨hhigh.1, hhigh.2.1, hhigh.2.2.1, fun he => absurd he hhigh.2.2.2⟩
    · exact ⟨hlow.1, hlow.2.1, hlow.2.2.1, fun he => absurd he hlow.2.2.2⟩

theorem segment_cons (b : UInt8) (bs : List UInt8) :
    segment (b :: bs) = percentByte keepInSegment b ++ segment bs := List.flatMap_cons

theorem mark_of_mem_segment {bs : List UInt8} {c : Char} (h : c ∈ segment bs) :
    c ≠ '/' ∧ c ≠ '?' ∧ c ≠ '#' ∧ (c = '\\' → 0x5C ∈ bs) := by
  obtain ⟨b, hb, hc⟩ := List.mem_flatMap.mp h
  obtain ⟨hslash, hquery, hnumber, hback⟩ := mark_of_mem_percentByte hc
  exact ⟨hslash, hquery, hnumber, fun he => hback he ▸ hb⟩

theorem isSeparator_of_mem_percentByte {b : UInt8} (hb : b ≠ 0x5C) :
    ∀ c ∈ percentByte keepInSegment b, Url.isSeparator c = false := fun c hc => by
  obtain ⟨hslash, -, -, hback⟩ := mark_of_mem_percentByte hc
  simp only [Url.isSeparator, Bool.or_eq_false_iff, beq_eq_false_iff_ne]
  exact ⟨hslash, fun h => hb (hback h)⟩

theorem isSeparator_of_mem_segment {bs : List UInt8} (hbs : 0x5C ∉ bs) :
    ∀ c ∈ segment bs, Url.isSeparator c = false := fun c hc => by
  obtain ⟨b, hb, hc⟩ := List.mem_flatMap.mp hc
  exact isSeparator_of_mem_percentByte (fun h => hbs (h ▸ hb)) c hc

theorem percentDecode_segment (bs : List UInt8) : percentDecode (ascii (segment bs)) = bs :=
  percentDecode_percentEncode plain_keepInSegment bs

theorem name?_segment (name : String) : name? (ascii (segment (utf8 name))) = some name := by
  rw [name?, percentDecode_segment, ofUtf8?_utf8]

/-- Clients split a segment at its backslashes. -/
theorem parts_of_segment (bs : List UInt8) : ∀ s ∈ split Url.isSeparator (segment bs),
    ∃ part, s = segment part ∧ 0x5C ∉ part := by
  induction bs with
  | nil =>
    intro s hs
    obtain rfl := List.mem_singleton.mp hs
    exact ⟨[], rfl, List.not_mem_nil⟩
  | cons b bs ih =>
    obtain ⟨first, others, hparts⟩ := List.exists_cons_of_ne_nil (split_ne_nil Url.isSeparator (segment bs))
    rw [hparts] at ih
    intro s hs
    rw [segment_cons] at hs
    by_cases hb : b = 0x5C
    · subst hb
      have hsplit : split Url.isSeparator (percentByte keepInSegment 0x5C ++ segment bs) =
          [] :: first :: others := congrArg (List.cons []) hparts
      rw [hsplit, List.mem_cons] at hs
      rcases hs with rfl | hs
      · exact ⟨[], rfl, List.not_mem_nil⟩
      · exact ih s hs
    · rw [split_append_of_none (isSeparator_of_mem_percentByte hb) hparts, List.mem_cons] at hs
      rcases hs with rfl | hs
      · obtain ⟨part, rfl, hpart⟩ := ih first (List.mem_cons_self ..)
        exact ⟨b :: part, (segment_cons b part).symm, fun h =>
          (List.mem_cons.mp h).elim (fun h => hb h.symm) hpart⟩
      · exact ih s (List.mem_cons_of_mem _ hs)

/-! ## Places -/

theorem eq_of_toLower {c d : Char} (h : c.toLower = d) : c = d ∨ 65 ≤ c.toNat ∧ c.toNat + 32 = d.toNat := by
  unfold Char.toLower at h
  split at h
  · rename_i hc
    right
    have hge : 65 ≤ c.val.toNat := UInt32.le_iff_toNat_le.mp hc.1
    have hle : c.val.toNat ≤ 90 := UInt32.le_iff_toNat_le.mp hc.2
    have hd : (c.val + 32).toNat = d.toNat := congrArg Char.toNat h
    rw [UInt32.toNat_add] at hd
    have hsum : (c.val.toNat + 32) % 4294967296 = d.toNat := hd
    exact ⟨hge, by rw [← hsum]; show c.val.toNat + 32 = _; omega⟩
  · exact Or.inl h

/-- Only letters have a capital. -/
theorem eq_of_toLower_of_lt {c d : Char} (h : c.toLower = d) (hd : d.toNat < 97) : c = d := by
  rcases eq_of_toLower h with h | ⟨hge, h⟩
  · exact h
  · omega

/-- The ways to write a dot. -/
def dots : List (List Char) := [['.'], ['%', '2', 'e'], ['%', '2', 'E']]

theorem mem_dots_of_toLower {s : List Char}
    (h : s.map Char.toLower = ['.'] ∨ s.map Char.toLower = ['%', '2', 'e']) : s ∈ dots := by
  rcases h with h | h
  · obtain ⟨c, rfl, hc⟩ := List.map_eq_singleton_iff.mp h
    obtain rfl := eq_of_toLower_of_lt hc (by decide)
    decide
  · obtain ⟨a, s, rfl, ha, h⟩ := List.map_eq_cons_iff.mp h
    obtain ⟨b, s, rfl, hb, h⟩ := List.map_eq_cons_iff.mp h
    obtain ⟨c, rfl, hc⟩ := List.map_eq_singleton_iff.mp h
    obtain rfl := eq_of_toLower_of_lt ha (by decide)
    obtain rfl := eq_of_toLower_of_lt hb (by decide)
    rcases eq_of_toLower hc with rfl | ⟨-, hc⟩
    · decide
    · obtain rfl : c = 'E' := Char.toNat_inj.mp (Nat.add_right_cancel hc)
      decide

theorem mem_dots_of_isHere {s : List Char} (h : Url.isHere s = true) : s ∈ dots := by
  simp only [Url.isHere, decide_eq_true_eq, List.mem_cons, List.not_mem_nil, or_false] at h
  refine mem_dots_of_toLower (h.imp (fun h => ?_) fun h => ?_) <;>
    exact String.ofList_injective h

theorem dots_of_isAbove {s : List Char} (h : Url.isAbove s = true) :
    ∃ a ∈ dots, ∃ b ∈ dots, s = a ++ b := by
  have hsplit : ∀ u v : List Char, u = ['.'] ∨ u = ['%', '2', 'e'] → v = ['.'] ∨ v = ['%', '2', 'e'] →
      s.map Char.toLower = u ++ v → ∃ a ∈ dots, ∃ b ∈ dots, s = a ++ b := by
    intro u v hu hv h
    obtain ⟨a, b, rfl, rfl, rfl⟩ := List.map_eq_append_iff.mp h
    exact ⟨a, mem_dots_of_toLower hu, b, mem_dots_of_toLower hv, rfl⟩
  simp only [Url.isAbove, decide_eq_true_eq, List.mem_cons, List.not_mem_nil, or_false] at h
  rcases h with h | h | h | h <;> replace h := String.ofList_injective h
  · exact hsplit ['.'] ['.'] (by simp) (by simp) h
  · exact hsplit ['.'] ['%', '2', 'e'] (by simp) (by simp) h
  · exact hsplit ['%', '2', 'e'] ['.'] (by simp) (by simp) h
  · exact hsplit ['%', '2', 'e'] ['%', '2', 'e'] (by simp) (by simp) h

/-- A segment stands for the same place if it holds a dot. -/
theorem isHere_segment (bs : List UInt8) : Url.isHere (segment bs) = true ↔ bs = utf8 "." := by
  constructor
  · intro h
    have hall : ∀ s ∈ dots, percentDecode (ascii s) = utf8 "." := by decide
    rw [← hall _ (mem_dots_of_isHere h), percentDecode_segment]
  · rintro rfl
    decide

theorem isAbove_segment (bs : List UInt8) : Url.isAbove (segment bs) = true ↔ bs = utf8 ".." := by
  constructor
  · intro h
    obtain ⟨a, ha, b, hb, hs⟩ := dots_of_isAbove h
    have hall : ∀ a ∈ dots, ∀ b ∈ dots, percentDecode (ascii (a ++ b)) = utf8 ".." := by
      decide
    rw [← hall a ha b hb, ← hs, percentDecode_segment]
  · rintro rfl
    decide

/-- A segment that clients leave in a path. -/
def Kept (s : List Char) : Prop := ∃ bs, s = segment bs ∧ 0x5C ∉ bs ∧ bs ≠ utf8 "." ∧ bs ≠ utf8 ".."

theorem kept_nil : Kept [] := ⟨[], rfl, List.not_mem_nil, by decide, by decide⟩

theorem kept_of_name {name : String} (h : Addressable name) : Kept (segment (utf8 name)) := by
  refine ⟨_, rfl, fun hmem => h.unsplit ?_, fun he => h.notHere (utf8_injective he),
    fun he => h.notAbove (utf8_injective he)⟩
  exact (mem_utf8 (c := '\\') (by decide)).mp hmem

/-- What the server reads in a segment that was left is addressable. -/
theorem Kept.addressable {s : List Char} (h : Kept s) {name : String} (hname : name? (ascii s) = some name) :
    Addressable name := by
  obtain ⟨bs, rfl, hback, hhere, habove⟩ := h
  rw [name?, percentDecode_segment, ofUtf8?_eq_some_iff] at hname
  subst hname
  refine ⟨fun h => hback ?_, fun h => hhere (congrArg utf8 h), fun h => habove (congrArg utf8 h)⟩
  exact (mem_utf8 (c := '\\') (by decide)).mpr h

theorem kept_leave {kept : List (List Char)} (h : ∀ s ∈ kept, Kept s) : ∀ s ∈ Url.leave kept, Kept s := by
  unfold Url.leave
  split
  · exact h
  · exact fun s hs => h s (List.dropLast_subset _ hs)

/-- Whatever is left of segments was not split and stands for no place. -/
theorem kept_resolve {segments : List (List Char)} (hs : ∀ s ∈ segments, ∃ bs, s = segment bs ∧ 0x5C ∉ bs)
    {kept : List (List Char)} (hk : ∀ s ∈ kept, Kept s) : ∀ s ∈ Url.resolve kept segments, Kept s := by
  induction segments generalizing kept with
  | nil => exact hk
  | cons s rest ih =>
    obtain ⟨bs, rfl, hback⟩ := hs s (List.mem_cons_self ..)
    have hnext : ∀ x ∈ (if Url.isAbove (segment bs) then Url.leave kept
        else if Url.isHere (segment bs) then kept else kept ++ [segment bs]), Kept x := by
      split
      · exact kept_leave hk
      · rename_i habove
        split
        · exact hk
        · rename_i hhere
          intro x hx
          rcases List.mem_append.mp hx with hx | hx
          · exact hk x hx
          · obtain rfl := List.mem_singleton.mp hx
            exact ⟨bs, rfl, hback, fun h => hhere ((isHere_segment bs).mpr h),
              fun h => habove ((isAbove_segment bs).mpr h)⟩
    rw [Url.resolve]
    split
    · intro x hx
      rcases List.mem_append.mp hx with hx | hx
      · exact hnext x hx
      · obtain rfl := List.mem_singleton.mp hx
        exact kept_nil
    · exact ih (fun x hx => hs x (List.mem_cons_of_mem _ hx)) hnext

/-- Segments that stand for no place stay. -/
theorem resolve_of_kept {segments : List (List Char)} (hs : ∀ s ∈ segments, Kept s)
    (kept : List (List Char)) : Url.resolve kept segments = kept ++ segments := by
  induction segments generalizing kept with
  | nil => exact (List.append_nil kept).symm
  | cons s rest ih =>
    obtain ⟨bs, rfl, -, hhere, habove⟩ := hs s (List.mem_cons_self ..)
    have hhere : Url.isHere (segment bs) = false :=
      Bool.eq_false_iff.mpr fun h => hhere ((isHere_segment bs).mp h)
    have habove : Url.isAbove (segment bs) = false :=
      Bool.eq_false_iff.mpr fun h => habove ((isAbove_segment bs).mp h)
    rw [Url.resolve]
    simp only [hhere, habove, Bool.false_eq_true, if_false, Bool.or_self, Bool.and_false]
    rw [ih fun x hx => hs x (List.mem_cons_of_mem _ hx), List.append_assoc]
    rfl

/-! ## Paths -/

/-- The path through segments that hold names. -/
def pathThrough (names : List String) : List Char := names.flatMap fun name => '/' :: segment (utf8 name)

/-- The segments that are left of a path through names. -/
def remaining (names : List String) : List (List Char) :=
  Url.resolve [] (names.flatMap fun name => split Url.isSeparator (segment (utf8 name)))

theorem kept_remaining (names : List String) : ∀ s ∈ remaining names, Kept s := by
  refine kept_resolve (fun s hs => ?_) fun s hs => absurd hs List.not_mem_nil
  obtain ⟨name, -, hs⟩ := List.mem_flatMap.mp hs
  exact parts_of_segment _ s hs

theorem remaining_of_addressable {names : List String} (h : ∀ name ∈ names, Addressable name) :
    remaining names = names.map fun name => segment (utf8 name) := by
  have hwhole : (names.flatMap fun name => split Url.isSeparator (segment (utf8 name))) =
      names.map fun name => segment (utf8 name) := by
    rw [List.map_eq_flatMap]
    refine List.flatMap_congr fun name hname => split_of_none ?_
    obtain ⟨bs, hbs, hback, -⟩ := kept_of_name (h name hname)
    rw [hbs]
    exact isSeparator_of_mem_segment hback
  rw [remaining, hwhole, resolve_of_kept, List.nil_append]
  intro s hs
  obtain ⟨name, hname, rfl⟩ := List.mem_map.mp hs
  exact kept_of_name (h name hname)

theorem resolved_pathThrough (names : List String) :
    Url.resolved (pathThrough names) = String.ofList ((remaining names).flatMap ('/' :: ·)) := by
  have hsplit : split Url.isSeparator (pathThrough names) =
      [] :: names.flatMap fun name => split Url.isSeparator (segment (utf8 name)) := by
    have h := split_flatMap (p := Url.isSeparator) (c := '/') rfl (names.map fun name => segment (utf8 name))
    rwa [List.flatMap_map, List.flatMap_map] at h
  rw [Url.resolved, hsplit]
  rfl

theorem segments_append {a s : List UInt8} {b : List UInt8} {ss : List (List UInt8)}
    (ha : 0x2F ∉ a) (hb : segments b = s :: ss) : segments (a ++ b) = (a ++ s) :: ss := by
  induction a with
  | nil => exact hb
  | cons x a ih =>
    obtain ⟨hx, ha⟩ := not_or.mp (mt List.mem_cons.mpr ha)
    rw [List.cons_append, segments, ih ha]
    simp only [beq_eq_false_iff_ne.mpr (Ne.symm hx), Bool.false_eq_true, if_false, List.cons_append]

theorem segments_flatMap {parts : List (List UInt8)} (h : ∀ s ∈ parts, 0x2F ∉ s) :
    segments (parts.flatMap (0x2F :: ·)) = [] :: parts := by
  induction parts with
  | nil => rfl
  | cons s parts ih =>
    have hs := segments_append (h s (List.mem_cons_self ..)) (ih fun x hx => h x (List.mem_cons_of_mem _ hx))
    rw [List.append_nil] at hs
    rw [List.flatMap_cons, List.cons_append, segments, hs]
    rfl

theorem Kept.ascii {s : List Char} (h : Kept s) : ∀ c ∈ s, c.toNat < 0x80 := by
  obtain ⟨bs, rfl, -⟩ := h
  exact ascii_percentEncode plain_keepInSegment bs

theorem Kept.unslashed {s : List Char} (h : Kept s) : 0x2F ∉ Text.ascii s := by
  obtain ⟨bs, rfl, -⟩ := h
  intro hmem
  obtain ⟨c, hc, hbyte⟩ := List.mem_map.mp hmem
  have hlt := ascii_percentEncode plain_keepInSegment bs c hc
  have hnat : c.toNat = 0x2F := by
    have h := congrArg UInt8.toNat hbyte
    rw [UInt8.toNat_ofNat'] at h
    have h' : c.toNat % 256 = 0x2F := h
    omega
  exact (mark_of_mem_segment hc).1 (Char.toNat_inj.mp hnat)

/-- The server splits a path into the segments that clients have left in it. -/
theorem target_resolved (names : List String) :
    target (Url.resolved (pathThrough names)) = targetOf ((remaining names).map ascii) := by
  have hkept := kept_remaining names
  generalize hr : remaining names = parts at hkept
  have hbytes : utf8 (String.ofList (parts.flatMap ('/' :: ·))) = (parts.map ascii).flatMap (0x2F :: ·) := by
    rw [utf8_ofList, List.flatMap_map, ascii, List.map_flatMap]
    · rfl
    · intro c hc
      obtain ⟨s, hs, hc⟩ := List.mem_flatMap.mp hc
      rcases List.mem_cons.mp hc with rfl | hc
      · decide
      · exact (hkept s hs).ascii c hc
  have hsegments : segments ((parts.map ascii).flatMap (0x2F :: ·)) = [] :: parts.map ascii :=
    segments_flatMap fun s hs => by
      obtain ⟨x, hx, rfl⟩ := List.mem_map.mp hs
      exact (hkept x hx).unslashed
  rw [resolved_pathThrough, hr, target, hbytes, hsegments]

/-! ## Routes -/

/-- The names that a route was read from. -/
def routeNames : Route → List String
  | .row table row => [table, row]
  | .cell table row column => [table, row, column]
  | .join | .health | .members => []

/-- The route to a cell, or to a row if there is no column. -/
def keyRoute (table row : String) : Option String → Route
  | none => .row table row
  | some column => .cell table row column

theorem routeNames_keyRoute (table row : String) (column : Option String) :
    routeNames (keyRoute table row column) = table :: row :: column.toList := by
  cases column <;> rfl

theorem mem_of_route {parts : List (List UInt8)} {route : Route} (h : targetOf parts = .route route) :
    ∀ name ∈ routeNames route, ∃ s ∈ parts, name? s = some name := by
  unfold targetOf at h
  split at h
  · cases h
    exact fun _ hn => absurd hn List.not_mem_nil
  split at h
  · cases h
    exact fun _ hn => absurd hn List.not_mem_nil
  split at h
  · cases h
    exact fun _ hn => absurd hn List.not_mem_nil
  split at h
  · split at h
    · cases h
    · split at h <;> cases h
      simp_all [routeNames]
  · split at h
    · cases h
    · split at h <;> cases h
      simp_all [routeNames]
  · cases h

theorem ascii_segment_ne_nil {name : String} (h : name ≠ "") : ascii (segment (utf8 name)) ≠ [] := by
  intro he
  have hempty : utf8 name = utf8 "" := by
    rw [← percentDecode_segment (utf8 name), he]
    rfl
  exact h (utf8_injective hempty)

theorem targetOf_key (table row : String) {column : Option String} (hlast : column.getD row ≠ "") :
    targetOf (("key" :: table :: row :: column.toList).map fun name => ascii (segment (utf8 name))) =
      .route (keyRoute table row column) := by
  have hkey : ascii (segment (utf8 "key")) = utf8 "key" := by decide
  have hroute : ¬(utf8 "key" ≠ utf8 "key" ∨ ascii (segment (utf8 (column.getD row))) = []) :=
    not_or.mpr ⟨fun h => h rfl, ascii_segment_ne_nil hlast⟩
  cases column <;>
    simp only [Option.getD_none, Option.getD_some] at hroute <;>
    simp only [Option.toList_none, Option.toList_some, List.map_cons, List.map_nil, hkey, targetOf, keyRoute,
      List.cons.injEq, reduceCtorEq, and_false, if_false, if_neg hroute, name?_segment]

/-- Names that the server reads in a path are addressable. -/
theorem addressable_of_mem {names : List String} {s : List UInt8} (hs : s ∈ (remaining names).map ascii)
    {name : String} (hname : name? s = some name) : Addressable name := by
  obtain ⟨x, hx, rfl⟩ := List.mem_map.mp hs
  exact (kept_remaining names x hx).addressable hname

theorem addressable_key : Addressable "key" := by decide

/-- A path leads to the cell or the row whose names it was made of just if they are addressable. -/
theorem target_key_iff (table row : String) {column : Option String} (hlast : column.getD row ≠ "") :
    target (Url.resolved (pathThrough ("key" :: table :: row :: column.toList))) =
        .route (keyRoute table row column) ↔
      ∀ name ∈ table :: row :: column.toList, Addressable name := by
  rw [target_resolved]
  constructor
  · intro h name hname
    obtain ⟨s, hs, hread⟩ := mem_of_route h name (routeNames_keyRoute table row column ▸ hname)
    exact addressable_of_mem hs hread
  · intro h
    have hall : ∀ name ∈ "key" :: table :: row :: column.toList, Addressable name :=
      List.forall_mem_cons.mpr ⟨addressable_key, h⟩
    rw [remaining_of_addressable hall, List.map_map]
    exact targetOf_key table row hlast

/-! ## Requests of clients -/

namespace CommandLine.Client

/-- The address of a node: a scheme, a host, and no path but slashes. -/
def IsNode (node : String) : Prop :=
  ∃ scheme ∈ ["http".toList, "https".toList], ∃ (host : List Char) (slashes : Nat), host ≠ [] ∧
    (∀ c ∈ host, Url.isSeparator c = false ∧ c ≠ '?' ∧ c ≠ '#') ∧
    node.toList = scheme ++ "://".toList ++ host ++ List.replicate slashes '/'

theorem toList_keyPath (table row : String) (column : Option String) :
    (keyPath table row column).toList = pathThrough ("key" :: table :: row :: column.toList) := by
  have hkey : percentEncode keepInSegment (utf8 "key") = ['k', 'e', 'y'] := by decide
  cases column <;> simp [keyPath, pathThrough, encodeSegment, segment, hkey]

theorem toList_base {node : String} {front host : List Char} {slashes : Nat} (hne : host ≠ [])
    (hhost : ∀ c ∈ host, Url.isSeparator c = false)
    (h : node.toList = front ++ host ++ List.replicate slashes '/') : (base node).toList = front ++ host := by
  obtain ⟨last, init, hlast⟩ := List.exists_cons_of_ne_nil (mt List.reverse_eq_nil_iff.mp hne)
  have hend : (last == '/') = false := by
    have hsep := hhost last (List.mem_reverse.mp (hlast ▸ List.mem_cons_self ..))
    exact (Bool.or_eq_false_iff.mp hsep).1
  have hdrop : (front ++ host ++ List.replicate slashes '/').reverse.dropWhile (· == '/') =
      (front ++ host).reverse := by
    rw [List.reverse_append, List.reverse_replicate, List.dropWhile_append_of_pos fun c hc => by
      simp [List.eq_of_mem_replicate hc]]
    rw [List.reverse_append, hlast, List.cons_append, List.dropWhile_cons_of_neg (by simp [hend])]
  rw [base, String.toList_ofList, h, hdrop, List.reverse_reverse]

theorem behind?_scheme {scheme : List Char} (hs : ':' ∉ scheme) (rest : List Char) :
    behind? "://".toList (scheme ++ "://".toList ++ rest) = some rest := by
  induction scheme with
  | nil => rfl
  | cons c scheme ih =>
    obtain ⟨hc, hs⟩ := not_or.mp (mt List.mem_cons.mpr hs)
    have hno : "://".toList.isPrefixOf (c :: (scheme ++ "://".toList ++ rest)) = false := by
      show (':' == c && _) = false
      rw [beq_eq_false_iff_ne.mpr hc, Bool.false_and]
    show behind? "://".toList (c :: (scheme ++ "://".toList ++ rest)) = some rest
    rw [behind?, hno, if_neg Bool.false_ne_true, ih hs]

/-- What a client sends of the address of a key behind that of a node. -/
theorem path_keyPath {node : String} (hnode : IsNode node) (table row : String) (column : Option String) :
    Url.path (base node ++ keyPath table row column) =
      Url.resolved (pathThrough ("key" :: table :: row :: column.toList)) := by
  obtain ⟨scheme, hscheme, host, slashes, hne, hhost, h⟩ := hnode
  have hcolon : ':' ∉ scheme := by
    have hall : ∀ s ∈ ["http".toList, "https".toList], ':' ∉ s := by decide
    exact hall scheme hscheme
  have hbase := toList_base hne (fun c hc => (hhost c hc).1) h
  generalize hnames : "key" :: table :: row :: column.toList = names
  have hpath : pathThrough names = '/' :: (pathThrough names).tail := by rw [← hnames]; rfl
  have hwhole : (pathThrough names).takeWhile (fun c => c != '?' && c != '#') = pathThrough names := by
    refine List.takeWhile_eq_self_iff.mpr fun c hc => ?_
    obtain ⟨name, -, hc⟩ := List.mem_flatMap.mp hc
    rcases List.mem_cons.mp hc with rfl | hc
    · rfl
    · obtain ⟨-, hquery, hnumber, -⟩ := mark_of_mem_segment hc
      simp [hquery, hnumber]
  have hrest : (host ++ pathThrough names).dropWhile
      (fun c => !Url.isSeparator c && c != '?' && c != '#') = pathThrough names := by
    rw [List.dropWhile_append_of_pos fun c hc => by simp [hhost c hc], hpath]
    rfl
  have hurl : (base node ++ keyPath table row column).toList =
      scheme ++ "://".toList ++ (host ++ pathThrough names) := by
    rw [String.toList_append, hbase, toList_keyPath, hnames, List.append_assoc]
  rw [Url.path, hurl, behind?_scheme hcolon, Option.getD_some, hrest, hwhole]

/-- A command on a key asks for its cell or row just if the names are addressable. -/
theorem target_request_iff {node : String} (hnode : IsNode node) (c : Command) {table row : String}
    (column : Option String) (hpath : c.path = keyPath table row column) (hlast : column.getD row ≠ "") :
    target (c.request node).path = .route (keyRoute table row column) ↔
      ∀ name ∈ table :: row :: column.toList, Addressable name := by
  have hrequest : (c.request node).path = Url.path (base node ++ c.path) := by
    rw [Command.request]
  rw [hrequest, hpath, path_keyPath hnode, target_key_iff table row hlast]

/-! ## What the server is asked -/

variable {ω : Type} (router : Router) (h : Host ω) (w : ω) (store : Membership.Store)

/-- The response carries no id, and its body is not left out. -/
def Unmarked (x : Response) : Prop := x.requestId = none ∧ x.headOnly = false

/-- A request without headers is answered as its route answers. -/
theorem serve_of_route {r : Request} (hheaders : r.headers = []) {route : Route}
    (ht : target r.path = .route route) {methods : List String} (ha : allowed (.route route) = some methods)
    (hm : r.method ∈ methods) (hhead : r.method ≠ "HEAD") {answer : ω × Response}
    (hanswer : respond router h w store maxBody r (.route route) = answer) (hx : Unmarked answer.2) :
    serve router h w store r = answer := by
  have hno : ∀ name, r.header? name = none := fun name => by
    rw [Request.header?, hheaders]
    rfl
  have hserve : serve router h w store r =
      (answer.1, { answer.2 with requestId := none, headOnly := false }) := by
    simp only [serve, hno, ht, ha, if_pos hm, Option.bind_none, Option.any_none, Option.getD_none,
      Nat.min_self, hhead, decide_false, Bool.false_eq_true, if_false, hanswer]
  rw [hserve, ← hx.1, ← hx.2]

theorem unmarked_postCell (limit : Nat) (body : List UInt8) (table row column : String) :
    Unmarked (postCell router h w limit body table row column).2 := by
  unfold postCell
  split
  · exact ⟨rfl, rfl⟩
  · split
    · exact ⟨rfl, rfl⟩
    · dsimp only
      cases (router.write h w table row column _).2 <;> exact ⟨rfl, rfl⟩

theorem unmarked_get (route : Route) : Unmarked (Http.get router h w store route) := by
  cases route with
  | row table row =>
    rw [Http.get]
    cases Router.read h w table row <;> exact ⟨rfl, rfl⟩
  | cell table row column =>
    rw [Http.get]
    cases Router.readCell h w table row column <;> exact ⟨rfl, rfl⟩
  | _ => exact ⟨rfl, rfl⟩

theorem serve_post {r : Request} (hheaders : r.headers = []) (hm : r.method = "POST")
    {table row column : String} (ht : target r.path = .route (.cell table row column)) :
    serve router h w store r = postCell router h w maxBody r.body table row column :=
  serve_of_route router h w store hheaders ht rfl (by simp [hm]) (by simp [hm]) (if_pos hm)
    (unmarked_postCell ..)

theorem serve_get_cell {r : Request} (hheaders : r.headers = []) (hm : r.method = "GET")
    {table row column : String} (ht : target r.path = .route (.cell table row column)) :
    serve router h w store r = (w, Http.get router h w store (.cell table row column)) :=
  serve_of_route router h w store hheaders ht rfl (by simp [hm]) (by simp [hm]) (if_neg (by simp [hm]))
    (unmarked_get ..)

theorem serve_get_row {r : Request} (hheaders : r.headers = []) (hm : r.method = "GET")
    {table row : String} (ht : target r.path = .route (.row table row)) :
    serve router h w store r = (w, Http.get router h w store (.row table row)) :=
  serve_of_route router h w store hheaders ht rfl (by simp [hm]) (by simp [hm]) rfl (unmarked_get ..)

/-- The commands on a cell or a row reach it, with the very names that were given, just if its names are
addressable. -/
theorem commands_reach_named {node : String} (hnode : IsNode node) (table : String) {row column : String}
    (hrow : row ≠ "") (hcolumn : column ≠ "") (value : String) :
    (target ((Command.put table row column value).request node).path = .route (.cell table row column) ↔
      Addressable table ∧ Addressable row ∧ Addressable column) ∧
    (target ((Command.get table row (some column)).request node).path = .route (.cell table row column) ↔
      Addressable table ∧ Addressable row ∧ Addressable column) ∧
    (target ((Command.get table row none).request node).path = .route (.row table row) ↔
      Addressable table ∧ Addressable row) ∧
    (Addressable table → Addressable row → Addressable column →
      serve router h w store ((Command.put table row column value).request node) =
        postCell router h w maxBody (Command.put table row column value).body table row column ∧
      serve router h w store ((Command.get table row (some column)).request node) =
        (w, Http.get router h w store (.cell table row column))) ∧
    (Addressable table → Addressable row →
      serve router h w store ((Command.get table row none).request node) =
        (w, Http.get router h w store (.row table row))) := by
  have hcell : (∀ name ∈ table :: row :: (some column).toList, Addressable name) ↔
      Addressable table ∧ Addressable row ∧ Addressable column := by
    simp
  have hline : (∀ name ∈ table :: row :: (none : Option String).toList, Addressable name) ↔
      Addressable table ∧ Addressable row := by
    simp
  have hput := (target_request_iff hnode (.put table row column value) (some column) rfl hcolumn).trans hcell
  have hget := (target_request_iff hnode (.get table row (some column)) (some column) rfl hcolumn).trans hcell
  have hwhole := (target_request_iff hnode (.get table row none) none rfl hrow).trans hline
  refine ⟨hput, hget, hwhole, fun ht hr hc => ⟨?_, ?_⟩, fun ht hr => ?_⟩
  · exact serve_post router h w store rfl rfl (hput.mpr ⟨ht, hr, hc⟩)
  · exact serve_get_cell router h w store rfl rfl (hget.mpr ⟨ht, hr, hc⟩)
  · exact serve_get_row router h w store rfl rfl (hwhole.mpr ⟨ht, hr⟩)

theorem isNode_defaultNode : IsNode defaultNode := by
  have hhost : ("localhost:8080".toList.all fun c => !Url.isSeparator c && c != '?' && c != '#') = true := by
    decide +kernel
  refine ⟨"http".toList, List.mem_cons_self .., "localhost:8080".toList, 0, by decide +kernel, fun c hc => ?_,
    by decide +kernel⟩
  simpa [and_assoc] using List.all_eq_true.mp hhost c hc

/-- Marks that are escaped come through. -/
theorem commands_reach_named_marks :
    target ((Command.put "a/b" "r?1 #2" "100%" "v").request defaultNode).path =
      .route (.cell "a/b" "r?1 #2" "100%") ∧
    target ((Command.get "a/b" "r?1 #2" none).request defaultNode).path = .route (.row "a/b" "r?1 #2") := by
  obtain ⟨hput, -, hget, -⟩ := commands_reach_named ⟨"n1", 5000, 10000⟩ (Cluster.host "n1") {} {}
    isNode_defaultNode "a/b" (show "r?1 #2" ≠ "" by decide) (show "100%" ≠ "" by decide) "v"
  exact ⟨hput.mpr (by decide +kernel), hget.mpr (by decide +kernel)⟩

/-- A backslash in the name of a row makes a cell of another row of it, a row that is called a dot is skipped,
and two dots take the name before with them. -/
theorem names_lead_elsewhere :
    target ((Command.get "t" "a\\b" none).request defaultNode).path = .route (.cell "t" "a" "b") ∧
    target ((Command.get "t" "." (some "c")).request defaultNode).path = .route (.row "t" "c") ∧
    target ((Command.put "t" ".." "c" "v").request defaultNode).path = .unknown := by
  decide +kernel

end CommandLine.Client

end ReplicatedTable
