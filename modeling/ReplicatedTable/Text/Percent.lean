import ReplicatedTable.Text.Utf8

/-!
# Percent encoding

Writes the bytes that a set does not keep as `%XX` with capital digits, and reads such escapes back. A
percent sign without two hexadecimal digits behind it stands for itself.
-/
namespace ReplicatedTable.Text

def hexDigits : List Char := "0123456789ABCDEF".toList

/-- The capital hexadecimal digit of a number below 16. -/
def hexDigit (n : Nat) : Char := hexDigits.getD n '0'

/-- The value of a hexadecimal digit of either case. -/
def hexValue? (b : UInt8) : Option UInt8 :=
  if 0x30 ≤ b && b ≤ 0x39 then some (b - 0x30)
  else if 0x41 ≤ b && b ≤ 0x46 then some (b - 0x41 + 10)
  else if 0x61 ≤ b && b ≤ 0x66 then some (b - 0x61 + 10)
  else none

/-- The text for one byte. -/
def percentByte (keep : UInt8 → Bool) (b : UInt8) : List Char :=
  if keep b then [Char.ofNat b.toNat]
  else ['%', hexDigit (b.toNat / 16), hexDigit (b.toNat % 16)]

def percentEncode (keep : UInt8 → Bool) (bs : List UInt8) : List Char :=
  bs.flatMap (percentByte keep)

/-- Reads every escape once. -/
def percentDecode : List UInt8 → List UInt8
  | [] => []
  | a :: r =>
    match a == 0x25, r with
    | true, h :: l :: r' =>
      match hexValue? h, hexValue? l with
      | some x, some y => (x * 16 + y) :: percentDecode r'
      | _, _ => a :: percentDecode (h :: l :: r')
    | _, r => a :: percentDecode r

end ReplicatedTable.Text
