import Std.Data.ExtTreeMap
import ReplicatedTable.Error

/-!
# Binary form of numbers, texts and maps

Numbers are written with their least significant byte first and in a fixed width, texts as the number of
their bytes and the bytes, maps as the number of their pairs and the pairs in ascending order of the keys.
A reader takes what it needs from the front and leaves the rest; it accepts the pairs of a map in any
order, and of two pairs with one key the later counts. Results: `readNumber` and `readText` undo
`number` and `text` in front of any rest, and accept nothing else.
-/
namespace ReplicatedTable.Binary
open Text Std

/-- The `width` lowest bytes of a number. -/
def number : (width : Nat) → Nat → List UInt8
  | 0, _ => []
  | width + 1, n => UInt8.ofNat (n % 256) :: number width (n / 256)

def text (s : String) : List UInt8 := number 8 (utf8 s).length ++ utf8 s

/-- The number of pairs and the pairs, each value written by `value`. -/
def map {α : Type} (value : α → List UInt8) (m : ExtTreeMap String α) : List UInt8 :=
  number 8 m.size ++ m.toList.flatMap fun p => text p.1 ++ value p.2

/-- Reads a value from the front of the bytes. -/
abbrev Reader (α : Type) := List UInt8 → Except CodecFault (α × List UInt8)

/-- The value of bytes, the least significant first. -/
def value : List UInt8 → Nat
  | [] => 0
  | b :: r => b.toNat + 256 * value r

def readNumber (width : Nat) : Reader Nat := fun bs =>
  let front := bs.take width
  if front.length < width then .error .cutNumber else .ok (value front, bs.drop width)

def readText : Reader String := fun bs => do
  let (n, bs) ← readNumber 8 bs
  let front := bs.take n
  if front.length < n then .error .cutText
  else
    match readUtf8 front with
    | .ok s => .ok (s, bs.drop n)
    | .error fault => .error (.badText fault)

/-- Reads `count` pairs and adds them to the map that has been read so far. -/
def readPairs {α : Type} (readValue : Reader α) :
    (count : Nat) → ExtTreeMap String α → Reader (ExtTreeMap String α)
  | 0, m, bs => .ok (m, bs)
  | count + 1, m, bs =>
    match readText bs with
    | .error fault => .error fault
    | .ok (key, bs) =>
      match readValue bs with
      | .error fault => .error fault
      | .ok (v, bs) => readPairs readValue count (m.insert key v) bs

def readMap {α : Type} (readValue : Reader α) : Reader (ExtTreeMap String α) := fun bs => do
  let (count, bs) ← readNumber 8 bs
  readPairs readValue count ∅ bs

@[simp] theorem length_number (width n : Nat) : (number width n).length = width := by
  induction width generalizing n with
  | zero => rfl
  | succ width ih => simp [number, ih]

/-- How many numbers there are room for in so many bytes. -/
def room : (width : Nat) → Nat
  | 0 => 1
  | width + 1 => 256 * room width

theorem room_eight : room 8 = UInt64.size := rfl

theorem value_number {width n : Nat} (h : n < room width) : value (number width n) = n := by
  induction width generalizing n with
  | zero => simp [room] at h; simp [number, value, h]
  | succ width ih =>
    rw [room] at h
    have hq : n / 256 < room width := by omega
    simp only [number, value, ih hq, UInt8.toNat_ofNat']
    omega

theorem number_value (bs : List UInt8) : number bs.length (value bs) = bs := by
  induction bs with
  | nil => rfl
  | cons b r ih =>
    have hb := b.toNat_lt
    simp only [List.length_cons, number, value]
    have h1 : (b.toNat + 256 * value r) % 256 = b.toNat := by omega
    have h2 : (b.toNat + 256 * value r) / 256 = value r := by omega
    rw [h1, h2, ih, UInt8.ofNat_toNat]

theorem readNumber_number {width n : Nat} (h : n < room width) (rest : List UInt8) :
    readNumber width (number width n ++ rest) = .ok (n, rest) := by
  simp only [readNumber]
  rw [List.take_left' (length_number ..), List.drop_left' (length_number ..), value_number h,
    if_neg (by simp)]

theorem eq_append_of_readNumber {width n : Nat} {bs rest : List UInt8}
    (h : readNumber width bs = .ok (n, rest)) : bs = number width n ++ rest := by
  simp only [readNumber] at h
  split at h
  · cases h
  · rename_i hl
    injection h with h
    injection h with h1 h2
    subst h1 h2
    have hw : (bs.take width).length = width := by simp at hl ⊢; omega
    have hn := number_value (bs.take width)
    rw [hw] at hn
    rw [hn, List.take_append_drop]

theorem readText_text {s : String} (h : (utf8 s).length < UInt64.size) (rest : List UInt8) :
    readText (text s ++ rest) = .ok (s, rest) := by
  simp only [readText, text, List.append_assoc, readNumber_number (room_eight ▸ h), bind, Except.bind]
  rw [List.take_left, if_neg (by simp), List.drop_left, readUtf8_eq_ok_iff.2 rfl]

theorem eq_append_of_readText {s : String} {bs rest : List UInt8}
    (h : readText bs = .ok (s, rest)) : bs = text s ++ rest := by
  simp only [readText, bind, Except.bind] at h
  cases hn : readNumber 8 bs with
  | error f => simp [hn] at h
  | ok p =>
    obtain ⟨n, bs'⟩ := p
    simp only [hn] at h
    split at h
    · cases h
    · rename_i hl
      cases hu : readUtf8 (bs'.take n) with
      | error f => simp [hu] at h
      | ok t =>
        simp only [hu] at h
        injection h with h
        injection h with h1 h2
        subst h1 h2
        have ht := readUtf8_eq_ok_iff.1 hu
        rw [eq_append_of_readNumber hn, text, ← ht, List.append_assoc, List.take_append_drop]
        congr 2
        simp at hl ⊢; omega

end ReplicatedTable.Binary
