/-!
# UTF-8

The bytes of a text, the text of well-formed bytes, and where ill-formed bytes first go wrong. Results:
`ofUtf8?` and `utf8` are inverse to each other, so bytes hold at most one text.
-/
namespace ReplicatedTable.Text

/-- The encoding of a text as bytes. -/
def utf8 (s : String) : List UInt8 := s.toByteArray.data.toList

/-- The text that is encoded by the bytes, if any. -/
def ofUtf8? (bs : List UInt8) : Option String := String.fromUTF8? ⟨bs.toArray⟩

@[simp] theorem ofUtf8?_utf8 (s : String) : ofUtf8? (utf8 s) = some s := by
  simp only [ofUtf8?, utf8, Array.toArray_toList]
  show String.fromUTF8? s.toByteArray = some s
  rw [String.fromUTF8?, dif_pos s.isValidUTF8]
  rfl

theorem utf8_of_ofUtf8? {bs : List UInt8} {s : String} (h : ofUtf8? bs = some s) : utf8 s = bs := by
  simp only [ofUtf8?, String.fromUTF8?] at h
  split at h
  · injection h with h; subst h; simp [utf8, String.fromUTF8]
  · cases h

theorem ofUtf8?_eq_some_iff {bs : List UInt8} {s : String} : ofUtf8? bs = some s ↔ bs = utf8 s :=
  ⟨fun h => (utf8_of_ofUtf8? h).symm, fun h => h ▸ ofUtf8?_utf8 s⟩

theorem utf8_injective {s t : String} (h : utf8 s = utf8 t) : s = t := by
  have := ofUtf8?_utf8 s
  rw [h, ofUtf8?_utf8] at this
  injection this with this; exact this.symm

/-- Where bytes stop being well formed: `validUpTo` bytes are, and then comes a sequence of `length`
bytes that no text holds, or one that ends too soon. -/
inductive Utf8Fault where
  | invalid (validUpTo length : Nat)
  | incomplete (validUpTo : Nat)
  deriving DecidableEq, Repr

/-- How many bytes come before the fault. -/
def Utf8Fault.validUpTo : Utf8Fault → Nat
  | .invalid n _ | .incomplete n => n

def Utf8Fault.message : Utf8Fault → String
  | .invalid at_ n => s!"invalid utf-8 sequence of {n} bytes from index {at_}"
  | .incomplete at_ => s!"incomplete utf-8 byte sequence from index {at_}"

def continuation (b : UInt8) : Bool := 0x80 ≤ b && b ≤ 0xBF

/-- The second bytes that may follow a leading byte of a three-byte sequence. -/
def second3 (lead b : UInt8) : Bool :=
  if lead == 0xE0 then 0xA0 ≤ b && b ≤ 0xBF
  else if lead == 0xED then 0x80 ≤ b && b ≤ 0x9F
  else continuation b

/-- The second bytes that may follow a leading byte of a four-byte sequence. -/
def second4 (lead b : UInt8) : Bool :=
  if lead == 0xF0 then 0x90 ≤ b && b ≤ 0xBF
  else if lead == 0xF4 then 0x80 ≤ b && b ≤ 0x8F
  else continuation b

/-- The first fault of bytes that start at index `i`. -/
def utf8Fault? (i : Nat) : List UInt8 → Option Utf8Fault
  | [] => none
  | a :: r =>
    if a < 0x80 then utf8Fault? (i + 1) r
    else if 0xC2 ≤ a && a ≤ 0xDF then
      match r with
      | [] => some (.incomplete i)
      | b :: r => if continuation b then utf8Fault? (i + 2) r else some (.invalid i 1)
    else if 0xE0 ≤ a && a ≤ 0xEF then
      match r with
      | [] => some (.incomplete i)
      | b :: r =>
        if second3 a b then
          match r with
          | [] => some (.incomplete i)
          | c :: r => if continuation c then utf8Fault? (i + 3) r else some (.invalid i 2)
        else some (.invalid i 1)
    else if 0xF0 ≤ a && a ≤ 0xF4 then
      match r with
      | [] => some (.incomplete i)
      | b :: r =>
        if second4 a b then
          match r with
          | [] => some (.incomplete i)
          | c :: r =>
            if continuation c then
              match r with
              | [] => some (.incomplete i)
              | d :: r => if continuation d then utf8Fault? (i + 4) r else some (.invalid i 3)
            else some (.invalid i 2)
        else some (.invalid i 1)
    else some (.invalid i 1)

/-- Reads a text, or reports the first fault. -/
def readUtf8 (bs : List UInt8) : Except Utf8Fault String :=
  match ofUtf8? bs with
  | some s => .ok s
  | none => .error ((utf8Fault? 0 bs).getD (.incomplete bs.length))

theorem readUtf8_eq_ok_iff {bs : List UInt8} {s : String} : readUtf8 bs = .ok s ↔ bs = utf8 s := by
  rw [← ofUtf8?_eq_some_iff, readUtf8]
  cases ofUtf8? bs <;> simp

end ReplicatedTable.Text
